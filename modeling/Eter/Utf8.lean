import Mathlib.Tactic

/-!
# Text as bytes

Text in UTF-8 and where it may be cut.
-/

namespace Utf8

/-- The bytes of a text. -/
def encode (cs : List Char) : List UInt8 := cs.flatMap String.utf8EncodeChar

def IsText (bs : List UInt8) : Prop := ∃ cs, bs = encode cs

def isContinuation (b : UInt8) : Bool := b &&& 0xC0 == 0x80

@[simp] theorem encode_nil : encode [] = [] := rfl

theorem encode_cons (c : Char) (cs : List Char) :
    encode (c :: cs) = String.utf8EncodeChar c ++ encode cs := rfl

theorem ascii_not_continuation {k : ℕ} (h : k < 128) :
    isContinuation (UInt8.ofNat k) = false := by
  have hall : ∀ k < 128, isContinuation (UInt8.ofNat k) = false := by decide
  exact hall k h

theorem continuation_not_ascii {b : UInt8} (h : isContinuation b = true) : ¬ b < 128 := by
  intro hb
  have hno := ascii_not_continuation (UInt8.lt_iff_toNat_lt.mp hb)
  rw [UInt8.ofNat_toNat, h] at hno
  cases hno

theorem isContinuation_tail (n : ℕ) : isContinuation (UInt8.ofNat (n % 64 + 0x80)) = true := by
  have hall : ∀ k < 64, isContinuation (UInt8.ofNat (k + 0x80)) = true := by decide
  exact hall (n % 64) (Nat.mod_lt n (by decide))

theorem forall_tail (ns : List ℕ) :
    ∀ b ∈ ns.map fun n => UInt8.ofNat (n % 64 + 0x80), isContinuation b = true := by
  intro b hb
  obtain ⟨n, -, rfl⟩ := List.mem_map.mp hb
  exact isContinuation_tail n

theorem isContinuation_lead {k : ℕ} (h : k < 64) : ¬ UInt8.ofNat (k + 0xc0) < 128 ∧
    isContinuation (UInt8.ofNat (k + 0xc0)) = false := by
  have hall : ∀ k < 64, ¬ UInt8.ofNat (k + 0xc0) < 128 ∧
      isContinuation (UInt8.ofNat (k + 0xc0)) = false := by decide
  exact hall k h

/-- A character is one byte, or a leading byte with continuation bytes behind it. -/
theorem encodeChar_cases (c : Char) :
    (c.toNat < 128 ∧ String.utf8EncodeChar c = [UInt8.ofNat c.toNat]) ∨
      ∃ a w, String.utf8EncodeChar c = a :: w ∧ ¬ a < 128 ∧ isContinuation a = false ∧
        ∀ b ∈ w, isContinuation b = true := by
  unfold String.utf8EncodeChar
  dsimp only
  split_ifs with h₁ h₂ h₃
  · exact Or.inl ⟨by change c.val.toNat < 128; omega, rfl⟩
  · obtain ⟨hlead, hno⟩ := isContinuation_lead (k := c.val.toNat / 64 % 32) (by omega)
    refine Or.inr ⟨_, _, rfl, hlead, hno, ?_⟩
    exact forall_tail [_]
  · obtain ⟨hlead, hno⟩ := isContinuation_lead (k := c.val.toNat / 4096 % 16 + 32) (by omega)
    refine Or.inr ⟨_, _, rfl, hlead, hno, ?_⟩
    exact forall_tail [_, _]
  · obtain ⟨hlead, hno⟩ := isContinuation_lead (k := c.val.toNat / 262144 % 8 + 48) (by omega)
    refine Or.inr ⟨_, _, rfl, hlead, hno, ?_⟩
    exact forall_tail [_, _, _]

/-- Text that starts with a one-byte character goes on as text. -/
theorem encode_ascii {cs : List Char} {a : UInt8} {rest : List UInt8} (h : encode cs = a :: rest)
    (ha : a < 128) : ∃ c cs', cs = c :: cs' ∧ c.toNat < 128 ∧ a = UInt8.ofNat c.toNat ∧
      rest = encode cs' := by
  cases cs with
  | nil => cases h
  | cons c cs =>
    rw [encode_cons] at h
    rcases encodeChar_cases c with ⟨hc, henc⟩ | ⟨b, w, henc, hb, -, -⟩
    · rw [henc] at h
      cases h
      exact ⟨c, cs, rfl, hc, rfl, rfl⟩
    · rw [henc] at h
      cases h
      exact (hb ha).elim

/-- Text with a one-byte character in it is text before it and text behind it. -/
theorem isText_cut {xs ys : List UInt8} {a : UInt8} (ha : a < 128) (h : IsText (xs ++ a :: ys)) :
    IsText xs ∧ IsText ys := by
  obtain ⟨cs, hcs⟩ := h
  induction cs generalizing xs with
  | nil => simp at hcs
  | cons c cs ih =>
    cases xs with
    | nil =>
      obtain ⟨-, cs', -, -, -, hys⟩ := encode_ascii hcs.symm ha
      exact ⟨⟨[], rfl⟩, cs', hys⟩
    | cons x xs =>
      rw [encode_cons] at hcs
      -- the byte is not inside the first character
      have hinside : ∀ b ∈ (String.utf8EncodeChar c).tail, ¬ b < 128 := by
        intro b hb
        rcases encodeChar_cases c with ⟨-, henc⟩ | ⟨d, w, henc, -, -, hw⟩
        · rw [henc] at hb
          cases hb
        · rw [henc] at hb
          exact continuation_not_ascii (hw b hb)
      rcases List.append_eq_append_iff.mp hcs with ⟨as, henc, hrest⟩ | ⟨as, hxs, hrest⟩
      · cases as with
        | nil =>
          rw [List.append_nil] at henc
          have hcut := @ih [] hrest
          exact ⟨⟨[c], by rw [encode_cons, henc]; simp⟩, hcut.2⟩
        | cons b as =>
          obtain ⟨rfl, -⟩ := List.cons.inj hrest
          have hmem : a ∈ (String.utf8EncodeChar c).tail := by
            rw [henc]
            simp
          exact (hinside a hmem ha).elim
      · obtain ⟨⟨cs', rfl⟩, hys⟩ := ih hrest.symm
        exact ⟨⟨c :: cs', by rw [encode_cons, hxs]⟩, hys⟩

end Utf8
