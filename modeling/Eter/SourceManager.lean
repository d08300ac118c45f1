import Eter.SourceText
import Eter.BinarySearch
import Eter.Pieces

/-!
# Lines and columns

The source manager resolves a byte offset to a line and a column: it searches the offsets at which
the lines start, which it collects once, and remembers what it has found.
-/

namespace Eter

def newline : UInt8 := ch '\n'

/-- Unsigned 32-bit addition. -/
def add32 (a b : ℕ) : ℕ := (a + b) % 2 ^ 32

/-- Unsigned 32-bit subtraction of a subtrahend below `2 ^ 32`. -/
def sub32 (a b : ℕ) : ℕ := (a + 2 ^ 32 - b) % 2 ^ 32

theorem add32_eq {a b : ℕ} (h : a + b < 2 ^ 32) : add32 a b = a + b := Nat.mod_eq_of_lt h

theorem sub32_eq {a b : ℕ} (h : b ≤ a) (ha : a < 2 ^ 32) : sub32 a b = a - b := by
  unfold sub32
  rw [show a + 2 ^ 32 - b = a - b + 2 ^ 32 by omega, Nat.add_mod_right]
  exact Nat.mod_eq_of_lt (by omega)

structure SourceLocation where
  line : ℕ
  column : ℕ
  deriving DecidableEq, Repr

/-- The loop of `buildLineIndex` over the bytes from offset `i` on. -/
def lineStartsFrom : ℕ → Bytes → List ℕ
  | _, [] => []
  | i, c :: cs => if c = newline then (i + 1) :: lineStartsFrom (i + 1) cs
    else lineStartsFrom (i + 1) cs

def buildLineIndex (data : Bytes) : List ℕ := 0 :: lineStartsFrom 0 data

/-- What `getLocation` computes for an offset that it has not seen before. -/
def locate (lineStarts : List ℕ) (offset : ℕ) : SourceLocation :=
  let line := sub32 (BinarySearch.upperBound lineStarts offset) 1
  ⟨add32 line 1, add32 (sub32 offset (lineStarts.getD line 0)) 1⟩

/-- The two keys that the source's hash table reserves, `2 ^ 32 - 1` and `2 ^ 32 - 2`, are not
offsets of a buffer below that size. -/
structure SourceManager where
  buffer : Bytes
  lineStarts : List ℕ
  cache : List (ℕ × SourceLocation)
  indexed : lineStarts = buildLineIndex buffer
  memoised : ∀ e ∈ cache, e.2 = locate lineStarts e.1

namespace SourceManager

def new (buffer : Bytes) : SourceManager := ⟨buffer, buildLineIndex buffer, [], rfl, by simp⟩

def getLocation (sm : SourceManager) (offset : ℕ) : SourceLocation × SourceManager :=
  match sm.cache.lookup offset with
  | some loc => (loc, sm)
  | none =>
    let loc := locate sm.lineStarts offset
    (loc, { sm with
      cache := (offset, loc) :: sm.cache
      memoised := by
        intro e he
        rcases List.mem_cons.mp he with rfl | he
        · rfl
        · exact sm.memoised e he })

/-- The manager after queries for all these offsets. -/
def queried (sm : SourceManager) (offsets : List ℕ) : SourceManager :=
  offsets.foldl (fun sm offset => (sm.getLocation offset).2) sm

/-- What is remembered is what would be computed. -/
theorem getLocation_fst (sm : SourceManager) (offset : ℕ) :
    (sm.getLocation offset).1 = locate sm.lineStarts offset := by
  unfold getLocation
  cases h : sm.cache.lookup offset with
  | none => rfl
  | some loc =>
    obtain ⟨before, behind, hcache, -⟩ := List.lookup_eq_some_iff.mp h
    exact sm.memoised (offset, loc) (by rw [hcache]; simp)

theorem getLocation_buffer (sm : SourceManager) (offset : ℕ) :
    (sm.getLocation offset).2.buffer = sm.buffer := by
  unfold getLocation
  cases sm.cache.lookup offset <;> rfl

theorem queried_buffer (sm : SourceManager) (offsets : List ℕ) :
    (sm.queried offsets).buffer = sm.buffer := by
  unfold queried
  induction offsets generalizing sm with
  | nil => rfl
  | cons o os ih => rw [List.foldl_cons, ih, getLocation_buffer]

end SourceManager

/-! ### The line index -/

theorem getElem?_lineStartsFrom (i k s : ℕ) (data : Bytes) :
    (lineStartsFrom i data)[k]? = some s ↔
      ∃ t, s = i + t + 1 ∧ data[t]? = some newline ∧ Pieces.index newline data t = k := by
  induction data generalizing i k with
  | nil => simp [lineStartsFrom]
  | cons c cs ih =>
    unfold lineStartsFrom
    split
    · next hc =>
      cases k with
      | zero =>
        rw [List.getElem?_cons_zero, Option.some.injEq]
        constructor
        · rintro rfl
          exact ⟨0, rfl, by simp [hc], rfl⟩
        · rintro ⟨t, rfl, -, hindex⟩
          cases t with
          | zero => rfl
          | succ t =>
            rw [Pieces.index_cons, if_pos hc] at hindex
            omega
      | succ k =>
        rw [List.getElem?_cons_succ, ih]
        constructor
        · rintro ⟨t, rfl, ht, rfl⟩
          exact ⟨t + 1, by omega, ht, by rw [Pieces.index_cons, if_pos hc]⟩
        · rintro ⟨t, rfl, ht, hindex⟩
          cases t with
          | zero => simp [Pieces.index_zero] at hindex
          | succ t =>
            rw [Pieces.index_cons, if_pos hc] at hindex
            exact ⟨t, by omega, ht, by omega⟩
    · next hc =>
      rw [ih]
      constructor
      · rintro ⟨t, rfl, ht, rfl⟩
        exact ⟨t + 1, by omega, ht, by rw [Pieces.index_cons, if_neg hc]; rfl⟩
      · rintro ⟨t, rfl, ht, rfl⟩
        cases t with
        | zero => exact absurd (Option.some.inj ht) hc
        | succ t => exact ⟨t, by omega, ht, by rw [Pieces.index_cons, if_neg hc]; rfl⟩

/-- The entries of the line index are the starts of the lines in order. -/
theorem getElem?_buildLineIndex (data : Bytes) (k s : ℕ) :
    (buildLineIndex data)[k]? = some s ↔
      Pieces.IsStart newline data s ∧ Pieces.index newline data s = k := by
  unfold buildLineIndex
  cases k with
  | zero =>
    rw [List.getElem?_cons_zero, Option.some.injEq]
    constructor
    · rintro rfl
      exact ⟨Or.inl rfl, rfl⟩
    · rintro ⟨rfl | ⟨t, rfl, ht⟩, hindex⟩
      · rfl
      · rw [Pieces.index_succ ht] at hindex
        omega
  | succ k =>
    rw [List.getElem?_cons_succ, getElem?_lineStartsFrom]
    constructor
    · rintro ⟨t, rfl, ht, rfl⟩
      rw [Nat.zero_add]
      exact ⟨Or.inr ⟨t, rfl, ht⟩, Pieces.index_succ ht⟩
    · rintro ⟨rfl | ⟨t, rfl, ht⟩, hindex⟩
      · simp [Pieces.index_zero] at hindex
      · rw [Pieces.index_succ ht] at hindex
        exact ⟨t, by omega, ht, by omega⟩

theorem buildLineIndex_sorted (data : Bytes) : (buildLineIndex data).Pairwise (· < ·) := by
  rw [List.pairwise_iff_getElem]
  intro i j hi hj hij
  obtain ⟨-, hidx⟩ := (getElem?_buildLineIndex data i _).mp (List.getElem?_eq_getElem hi)
  obtain ⟨-, hjdx⟩ := (getElem?_buildLineIndex data j _).mp (List.getElem?_eq_getElem hj)
  by_contra hge
  have hle : Pieces.index newline data _ ≤ Pieces.index newline data _ :=
    Pieces.index_le (not_lt.mp hge)
  omega

/-- The search finds the line that an offset is on. -/
theorem upperBound_buildLineIndex (data : Bytes) (o : ℕ) :
    BinarySearch.upperBound (buildLineIndex data) o = Pieces.index newline data o + 1 := by
  obtain ⟨hupper, hsearch⟩ := BinarySearch.upperBound_le _ o (buildLineIndex_sorted data)
  have hstart := (getElem?_buildLineIndex data _ _).mpr
    ⟨Pieces.start_isStart (o := o), Pieces.index_start⟩
  have hlower := (hsearch _ _ hstart).mp Pieces.start_le
  -- A further line that starts by the offset would have a greater index than the offset has.
  by_contra hne
  have hlt : Pieces.index newline data o + 1 <
      BinarySearch.upperBound (buildLineIndex data) o := by omega
  have hnext := List.getElem?_eq_getElem (hlt.trans_le hupper)
  obtain ⟨-, hindex⟩ := (getElem?_buildLineIndex data _ _).mp hnext
  have hle : Pieces.index newline data _ ≤ Pieces.index newline data o :=
    Pieces.index_le ((hsearch _ _ hnext).mpr hlt)
  omega

/-! ### Lookup -/

/-- The number of the line that an offset is on. -/
def lineOf (buffer : Bytes) (o : ℕ) : ℕ := 1 + (buffer.take o).count newline

/-- Where the line starts that an offset is on. -/
def lineStart (buffer : Bytes) (o : ℕ) : ℕ := Pieces.start newline buffer o

def columnOf (buffer : Bytes) (o : ℕ) : ℕ := o - lineStart buffer o + 1

theorem locate_eq {buffer : Bytes} {o : ℕ} (hsize : buffer.length < 2 ^ 32 - 2)
    (ho : o ≤ buffer.length) :
    locate (buildLineIndex buffer) o = ⟨lineOf buffer o, columnOf buffer o⟩ := by
  have hstart := (getElem?_buildLineIndex buffer _ _).mpr
    ⟨Pieces.start_isStart (o := o), Pieces.index_start⟩
  have hle : Pieces.start newline buffer o ≤ o := Pieces.start_le
  have hlines : Pieces.index newline buffer o ≤ o :=
    (List.count_le_length).trans (List.length_take_le o buffer)
  have hline : sub32 (BinarySearch.upperBound (buildLineIndex buffer) o) 1 =
      Pieces.index newline buffer o := by
    rw [upperBound_buildLineIndex, sub32_eq (by omega) (by omega), Nat.add_sub_cancel]
  simp only [locate, hline]
  rw [List.getD_eq_getElem?_getD, hstart, Option.getD_some, sub32_eq hle (by omega),
    add32_eq (by omega), add32_eq (by omega), Nat.add_comm _ 1]
  rfl

theorem getLocation_eq {sm : SourceManager} {o : ℕ} (hsize : sm.buffer.length < 2 ^ 32 - 2)
    (ho : o ≤ sm.buffer.length) :
    (sm.getLocation o).1 = ⟨lineOf sm.buffer o, columnOf sm.buffer o⟩ := by
  rw [SourceManager.getLocation_fst, sm.indexed, locate_eq hsize ho]

/-- One location is in the text before another. -/
def SourceLocation.Before (a b : SourceLocation) : Prop :=
  a.line < b.line ∨ a.line = b.line ∧ a.column < b.column

theorem before_of_lt {buffer : Bytes} {o o' : ℕ} (h : o < o') :
    SourceLocation.Before ⟨lineOf buffer o, columnOf buffer o⟩
      ⟨lineOf buffer o', columnOf buffer o'⟩ := by
  have hle : Pieces.index newline buffer o ≤ Pieces.index newline buffer o' :=
    Pieces.index_le h.le
  rcases Nat.lt_or_eq_of_le hle with hlt | heq
  · exact Or.inl (Nat.add_lt_add_left hlt 1)
  · -- On one line the columns are counted from the same start.
    have hstart : lineStart buffer o = lineStart buffer o' :=
      Pieces.start_isStart.eq_of_index Pieces.start_isStart
        (by rw [Pieces.index_start, heq]; exact Pieces.index_start.symm)
    have hle : lineStart buffer o ≤ o := Pieces.start_le
    refine Or.inr ⟨congrArg (1 + ·) heq, ?_⟩
    show o - lineStart buffer o + 1 < o' - lineStart buffer o' + 1
    omega

/-- The lookup is exact whatever was looked up before, and follows the order of the offsets. -/
theorem getLocation_exact (buffer : Bytes) (queries : List ℕ) (o : ℕ)
    (hsize : buffer.length < 2 ^ 32 - 2) (ho : o ≤ buffer.length) :
    ∃ loc start, (((SourceManager.new buffer).queried queries).getLocation o).1 = loc ∧
      loc.line = 1 + (buffer.take o).count newline ∧
      loc.column = o - lineStart buffer o + 1 ∧
      ((SourceManager.new buffer).queried queries).lineStarts[loc.line - 1]? = some start ∧
      o = start + loc.column - 1 ∧
      ∀ later o', o < o' → o' ≤ buffer.length →
        loc.Before (((SourceManager.new buffer).queried later).getLocation o').1 := by
  have hbuffer : ∀ qs, ((SourceManager.new buffer).queried qs).buffer = buffer :=
    SourceManager.queried_buffer _
  have hexact : ∀ qs, ∀ o ≤ buffer.length,
      (((SourceManager.new buffer).queried qs).getLocation o).1 =
        ⟨lineOf buffer o, columnOf buffer o⟩ := by
    intro qs o ho
    rw [getLocation_eq (by rwa [hbuffer]) (by rwa [hbuffer]), hbuffer]
  have hle : lineStart buffer o ≤ o := Pieces.start_le
  refine ⟨_, lineStart buffer o, hexact queries o ho, rfl, rfl, ?_, ?_, ?_⟩
  · rw [SourceManager.indexed, hbuffer, getElem?_buildLineIndex]
    refine ⟨Pieces.start_isStart, ?_⟩
    show Pieces.index newline buffer (Pieces.start newline buffer o) = lineOf buffer o - 1
    rw [Pieces.index_start]
    exact (Nat.add_sub_cancel_left 1 _).symm
  · show o = lineStart buffer o + (o - lineStart buffer o + 1) - 1
    omega
  · intro later o' hlt ho'
    rw [hexact later o' ho']
    exact before_of_lt hlt

theorem getLocation_exact_second_line :
    (((SourceManager.new (ascii "a\nbc\n")).queried [3, 9, 4]).getLocation 4).1 = ⟨2, 3⟩ := by
  obtain ⟨⟨line, column⟩, -, hloc, hline, hcolumn, -⟩ :=
    getLocation_exact (ascii "a\nbc\n") [3, 9, 4] 4 (by decide) (by decide)
  have hline : line = 2 := hline.trans (by decide)
  have hcolumn : column = 3 := hcolumn.trans (by decide)
  rw [hloc, hline, hcolumn]

end Eter
