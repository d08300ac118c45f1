import Eter.LexerTurns
import Eter.LexerLocality

/-!
# Lexing a range in two parts

A range may be cut at any offset that no item straddles: the items of the two parts are the items
of the whole. Up to the cut every turn of the whole stops before the second part, so it is a turn
of the first part; from the cut on the loops see the same bytes.
-/

namespace Eter.Lexer
open Scan Cursor

/-- No item has the offset strictly inside its span. -/
def CutsBetween (items : List LexerItem) (m : ℕ) : Prop :=
  ∀ it ∈ items, ¬ (it.span.start < m ∧ m < it.span.end)

/-- A rejected literal with adjacent underscores is an `InvalidNumericLiteral` error. -/
theorem not_doubled_of_valid {pos : ℕ} {c : UInt8} {cs : Bytes}
    (h : NoInvalidNumericLiteral (lexStep pos c cs).1) : ¬ DoubledSeparator c cs := by
  intro hd
  exact h ⟨0, 0⟩ (by simp [lexStep_doubled hd])

/-- Whitespace up to the cut: only the second part has turns. -/
theorem lexRange_split_spaces {p : ℕ} {xs : Bytes} (w : Bytes) (h : ∀ d ∈ xs, isSpace d = true) :
    lexRange ⟨p, xs ++ w⟩ = lexRange ⟨p, xs⟩ ++ lexRange ⟨p + xs.length, w⟩ := by
  have hxs : skipWhitespace ⟨p, xs⟩ = ⟨p + xs.length, []⟩ := by
    have := skipWhile_append_of_all p [] h
    rwa [List.append_nil] at this
  have hskip : skipWhitespace ⟨p, xs ++ w⟩ = skipWhitespace ⟨p + xs.length, w⟩ :=
    skipWhile_append_of_all p w h
  rw [lexRange_stop hxs, List.nil_append]
  rcases hs : skipWhitespace ⟨p + xs.length, w⟩ with ⟨pos, rest⟩
  rw [hs] at hskip
  cases rest with
  | nil => rw [lexRange_stop hskip, lexRange_stop hs]
  | cons c cs => rw [lexRange_turn hskip, lexRange_turn hs]

theorem lexRange_split (cur : Cur) (xs w : Bytes) (hcur : cur.rest = xs ++ w)
    (hv : NoInvalidNumericLiteral (lexRange cur))
    (hcut : CutsBetween (lexRange cur) (cur.pos + xs.length)) :
    lexRange cur = lexRange ⟨cur.pos, xs⟩ ++ lexRange ⟨cur.pos + xs.length, w⟩ := by
  induction cur using turns_induction generalizing xs with
  | stop cur pos hs =>
      obtain ⟨p, rest⟩ := cur
      obtain rfl : rest = xs ++ w := hcur
      obtain ⟨u, hu, hsp⟩ := skipWhitespace_reads ⟨p, xs ++ w⟩
      rw [hs] at hu
      have hall : xs ++ w = u := by simpa using hu.rest_eq
      exact lexRange_split_spaces w fun d hd => hsp d (hall ▸ List.mem_append_left _ hd)
  | turn cur pos c cs hs ih =>
      obtain ⟨p, rest⟩ := cur
      obtain rfl : rest = xs ++ w := hcur
      obtain ⟨u, hu, hsp⟩ := skipWhitespace_reads ⟨p, xs ++ w⟩
      rw [hs] at hu
      rw [lexRange_turn hs] at hv hcut
      dsimp only at hcut ⊢
      by_cases hpos : pos < p + xs.length
      · -- the turn lies in the first part: the item that spans it does not straddle the cut
        obtain ⟨xs', hrest, hxs⟩ := hu.not_past hpos.le
        cases xs' with
        | nil =>
            have := hu.pos_eq
            rw [List.append_nil] at hxs
            rw [hxs] at hpos
            dsimp only at this
            omega
        | cons d cs₀ =>
            rw [List.cons_append, List.cons.injEq] at hrest
            obtain ⟨rfl, rfl⟩ := hrest
            have hv₁ : NoInvalidNumericLiteral (lexStep pos c (cs₀ ++ w)).1 := fun s hm =>
              hv s (List.mem_append_left _ hm)
            have hcov : Covers pos ⟨pos + 1, cs₀ ++ w⟩ (lexStep pos c (cs₀ ++ w)) :=
              lexStep_covers (not_doubled_of_valid hv₁)
            obtain ⟨it, hit, hspan⟩ := hcov.whole
            obtain ⟨v, hvr⟩ := lexStep_reads pos c (cs₀ ++ w)
            have hend : (lexStep pos c (cs₀ ++ w)).2.pos ≤ p + xs.length := by
              have := hcut it (List.mem_append_left _ hit)
              rw [hspan] at this
              dsimp only at this
              omega
            rcases hstep : lexStep pos c (cs₀ ++ w) with ⟨items, q, rest⟩
            rw [hstep] at hv hcut hv₁ hend hvr ih
            dsimp only at hend
            have hlen : pos + (c :: cs₀).length = p + xs.length := by
              have := hu.pos_eq
              rw [hxs, List.length_append]
              dsimp only at this
              omega
            have hvr' : Reads ⟨pos, (c :: cs₀) ++ w⟩ (c :: v) ⟨q, rest⟩ := hvr
            obtain ⟨ys, rfl, hys⟩ := hvr'.not_past (by omega)
            have hloc : lexStep pos c cs₀ = (items, ⟨q, ys⟩) := lexStep_local hv₁ hstep
            have hsx : skipWhitespace ⟨p, xs⟩ = ⟨pos, c :: cs₀⟩ :=
              (skipWhile_extend isSpace p xs w ⟨pos, c :: cs₀⟩ hs).1
            have hq : q + ys.length = p + xs.length := by
              have hp := hvr.pos_eq
              have hl := congrArg List.length hys
              rw [List.length_append] at hl
              dsimp only at hp
              omega
            have hrec := ih ys rfl (fun s hm => hv s (List.mem_append_right _ hm))
              (fun it hm => by
                dsimp only
                rw [hq]
                exact hcut it (List.mem_append_right _ hm))
            rw [lexRange_turn hs, lexRange_turn hsx, hstep, hloc, hrec, List.append_assoc]
            dsimp only
            rw [hq]
      · have hpre : xs <+: u := by
          have hp := hu.pos_eq
          have hr : xs ++ w = u ++ (c :: cs) := hu.rest_eq
          dsimp only at hp
          exact List.prefix_of_prefix_length_le (hr ▸ List.prefix_append xs w)
            (List.prefix_append u _) (by omega)
        exact lexRange_split_spaces w fun d hd => hsp d (hpre.subset hd)

/-- Cutting a valid range at `m`: without end-of-file tokens the items of the parts are the items
of the range. -/
theorem lex_split (buffer : Bytes) (a b m : ℕ) (hr : ValidRange buffer ⟨a, b⟩) (ham : a ≤ m)
    (hmb : m ≤ b) (hv : NoInvalidNumericLiteral (lex buffer ⟨a, b⟩))
    (hcut : CutsBetween (lex buffer ⟨a, b⟩) m) :
    ignoringEof (lex buffer ⟨a, b⟩) =
      ignoringEof (lex buffer ⟨a, m⟩) ++ ignoringEof (lex buffer ⟨m, b⟩) := by
  have hb : b ≤ buffer.length := hr.2
  have hsub : ∀ it ∈ lexRange (rangeStart buffer ⟨a, b⟩), it ∈ lex buffer ⟨a, b⟩ := by
    intro it hit
    rw [lex, if_pos hr]
    exact List.mem_append_left _ hit
  have hxs : (rangeStart buffer ⟨a, b⟩).rest =
      (rangeStart buffer ⟨a, m⟩).rest ++ (rangeStart buffer ⟨m, b⟩).rest := by
    simp only [rangeStart]
    rw [show b - a = (m - a) + (b - m) by omega, List.take_add, List.drop_drop,
      show a + (m - a) = m by omega]
  have hlen : a + (rangeStart buffer ⟨a, m⟩).rest.length = m := by
    simp only [rangeStart, List.length_take, List.length_drop]
    omega
  have hsplit := lexRange_split (rangeStart buffer ⟨a, b⟩) _ _ hxs
    (fun s hm => hv s (hsub _ hm))
    (fun it hm => by
      have := hcut it (hsub it hm)
      rwa [show (rangeStart buffer ⟨a, b⟩).pos = a from rfl, hlen])
  rw [ignoringEof_lex hr, ignoringEof_lex ⟨ham, hmb.trans hb⟩, ignoringEof_lex ⟨hmb, hb⟩, hsplit,
    show (rangeStart buffer ⟨a, b⟩).pos = a from rfl, hlen]
  rfl

/-- The cut between a number and the dot behind it, which might have been its fraction. -/
theorem lex_split_comment : ignoringEof (lex (ascii "a/*b*/1.x") ⟨0, 9⟩) =
    ignoringEof (lex (ascii "a/*b*/1.x") ⟨0, 7⟩) ++
      ignoringEof (lex (ascii "a/*b*/1.x") ⟨7, 9⟩) := by
  have hr : ValidRange (ascii "a/*b*/1.x") ⟨0, 9⟩ := by decide
  have hitems : lex (ascii "a/*b*/1.x") ⟨0, 9⟩ =
      [.token ⟨.identifier, ⟨0, 1⟩⟩, .token ⟨.comment, ⟨1, 6⟩⟩, .token ⟨.integer_literal, ⟨6, 7⟩⟩,
        .token ⟨.dot, ⟨7, 8⟩⟩, .token ⟨.identifier, ⟨8, 9⟩⟩, .token ⟨.eof, ⟨9, 9⟩⟩] := by decide
  refine lex_split (ascii "a/*b*/1.x") 0 9 7 hr (by decide) (by decide) ?_ ?_
  · rw [hitems]
    intro s
    simp
  · rw [hitems]
    simp [CutsBetween, LexerItem.span]

end Eter.Lexer
