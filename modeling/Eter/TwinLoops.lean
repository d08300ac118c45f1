import Eter.TwinSteps

/-!
# Two runs of lists and paths
-/

namespace Eter.Parser
open Stateful Diag

variable {w : Twin} {f : Frame} {n : ℕ} {el el' : ParserM NodeIndex} {cs cs' : List NodeIndex}

/-- Lists of children that are alike. -/
abbrev KidsAlike (w : Twin) : List NodeIndex → List NodeIndex → Prop :=
  List.Forall₂ (NodeAlike w)

theorem KidsAlike.append {as as' bs bs' : List NodeIndex} (ha : KidsAlike w as as')
    (hb : KidsAlike w bs bs') : KidsAlike w (as ++ bs) (as' ++ bs') :=
  List.rel_append ha hb

theorem KidsAlike.push {x y : NodeIndex} (h : KidsAlike w cs cs') (hx : NodeAlike w x y) :
    KidsAlike w (cs ++ [x]) (cs' ++ [y]) :=
  h.append (.cons hx .nil)

theorem NodeAlike.null : NodeAlike w NullNode NullNode := Or.inl ⟨rfl, rfl⟩

theorem NodeAlike.pushed {x y : NodeIndex} (h : NodeAlike w x y) :
    KidsAlike w (pushed x) (pushed y) := by
  unfold Parser.pushed
  rcases h with ⟨rfl, rfl⟩ | ⟨k, rfl, rfl⟩
  · exact .nil
  · exact .cons (Or.inr ⟨k, rfl, rfl⟩) .nil

theorem SizeAlike.ne_iff {m m' n n' : ℕ} (hm : SizeAlike w m m') (hn : SizeAlike w n n') :
    m ≠ n ↔ m' ≠ n' := by
  obtain ⟨k, rfl, rfl⟩ := hm
  obtain ⟨l, rfl, rfl⟩ := hn
  omega

/-- A production that two runs take alike whatever names they hold. -/
def Twins (w : Twin) (m : ParserM NodeIndex) : Prop := ∀ f, Matches w f (NodeAlike w) m m

/-- All the productions that recursion enters. -/
def Recursive (w : Twin) (rec : Rec) : Prop := ∀ call, Twins w (rec call)

/-! ### Comma-separated lists -/

theorem resyncElement_matches {close : Token.Kind} {m m' : ℕ} (h : SizeAlike w m m') :
    Matches w f (fun _ _ => True) (resyncElement close m) (resyncElement close m') := by
  unfold resyncElement
  refine Matches.errorsSize.bind fun k k' hk => ?_
  by_cases hne : k ≠ m
  · rw [if_pos hne, if_pos ((hk.ne_iff h).mp hne)]
    exact Matches.skipUntil _
  · rw [if_neg hne, if_neg fun hne' => hne ((hk.ne_iff h).mpr hne')]
    exact Matches.pure trivial

theorem commaTurn_matches (close : Token.Kind) (hel : Matches w f (NodeAlike w) el el')
    (h : KidsAlike w cs cs') :
    Matches w f (TurnAlike (KidsAlike w) (KidsAlike w)) (commaTurn close el cs)
      (commaTurn close el' cs') := by
  unfold commaTurn
  refine Matches.errorsSize.bind fun k k' hk => ?_
  refine hel.bind fun x y hx => ?_
  refine (resyncElement_matches hk).bind fun _ _ _ => ?_
  refine (Matches.consume (by decide)).bind ?_
  rintro b _ rfl
  split
  · exact Matches.pure (h.push hx)
  · refine (Matches.check close).bind ?_
    rintro b _ rfl
    split
    · exact Matches.pure (h.push hx)
    · exact Matches.pure (h.push hx)

theorem parseCommaSeparated_matches (close : Token.Kind) (hel : Matches w f (NodeAlike w) el el')
    (h : KidsAlike w cs cs') :
    Matches w f (KidsAlike w) (parseCommaSeparated n cs close el)
      (parseCommaSeparated n cs' close el') := by
  unfold parseCommaSeparated
  refine (Matches.check close).bind ?_
  rintro b _ rfl
  refine Matches.atEof.bind ?_
  rintro c _ rfl
  split
  · exact Matches.pure h
  · exact Matches.iterate (fun _ _ hcs => commaTurn_matches close hel hcs) n h

theorem parseMore_matches (close : Token.Kind → Bool) (hel : Matches w f (NodeAlike w) el el')
    (h : KidsAlike w cs cs') :
    Matches w f (KidsAlike w) (parseMore n cs close el) (parseMore n cs' close el') := by
  unfold parseMore
  refine Matches.iterate (fun as as' has => ?_) n h
  unfold moreTurn
  refine (Matches.consume (by decide)).bind ?_
  rintro b _ rfl
  split
  · exact Matches.pure has
  · refine Matches.peek.bind ?_
    rintro k _ rfl
    split
    · exact Matches.pure has
    · exact hel.bind fun x y hx => Matches.pure (has.push hx)

theorem parseUntil_matches (close : Token.Kind) (hel : Matches w f (NodeAlike w) el el')
    (h : KidsAlike w cs cs') :
    Matches w f (KidsAlike w) (parseUntil n cs close el) (parseUntil n cs' close el') := by
  unfold parseUntil
  refine Matches.iterate (fun as as' has => ?_) n h
  unfold untilTurn
  refine (Matches.check close).bind ?_
  rintro b _ rfl
  refine Matches.atEof.bind ?_
  rintro c _ rfl
  split
  · exact Matches.pure has
  · exact hel.bind fun x y hx => Matches.pure (has.push hx)

/-! ### Paths -/

/-- A path so far: whether it has several segments, and its span. -/
def PathAlike (w : Twin) (i : ℕ) (a b : Bool × Span) : Prop :=
  b.1 = a.1 ∧ ∃ j, i ≤ j ∧ (a.1 = false → j = i) ∧ a.2 = w.left.hull i j ∧
    b.2 = w.right.hull (i + w.shift) (j + w.shift)

theorem PathAlike.span {i : ℕ} {a b : Bool × Span} (h : PathAlike w i a b) :
    SpanAlike w a.1 a.2 b.2 := by
  obtain ⟨-, j, hij, hone, ha, hb⟩ := h
  exact ⟨i, j, hij, fun hf => (hone hf).symm, ha, hb⟩

theorem skipRedundantSeparators_matches :
    Matches w f (fun _ _ => True) (skipRedundantSeparators n) (skipRedundantSeparators n) := by
  unfold skipRedundantSeparators
  refine Matches.iterate (V := fun _ _ => True) (fun _ _ _ => ?_) n trivial
  unfold redundantTurn
  refine (Matches.check _).bind ?_
  rintro b _ rfl
  split
  · refine Matches.peekToken.bind fun _ _ _ => ?_
    refine (Matches.addError (by decide)).bind fun _ _ _ => ?_
    exact Matches.advance.bind fun _ _ _ => Matches.pure trivial
  · exact Matches.pure trivial

theorem segmentTurn_matches {i : ℕ} (hi : i + 1 ≤ f.past) {a b : Bool × Span}
    (h : PathAlike w i a b) :
    Matches w f (TurnAlike (PathAlike w i) (PathAlike w i)) (segmentTurn n a)
      (segmentTurn n b) := by
  unfold segmentTurn
  refine (Matches.check _).bind ?_
  rintro c _ rfl
  split
  · refine Matches.advance.bind fun _ _ _ => ?_
    refine skipRedundantSeparators_matches.bind fun _ _ _ => ?_
    refine (Matches.expect (by decide) (by decide)).bind fun _ _ _ => ?_
    refine Matches.bindPrevious (by omega) fun j hj => Matches.pure ?_
    obtain ⟨-, j₀, hij, -, ha, hb⟩ := h
    refine ⟨rfl, j, by omega, by simp, ?_, ?_⟩
    · rw [ha]
      rfl
    · rw [hb]
      rfl
  · exact Matches.pure h

/-- Behind token `i`, a path that starts with it. -/
theorem parsePathSegments_matches {i : ℕ} (hi : i + 1 ≤ f.past) :
    Matches w f (PathAlike w i) (parsePathSegments n (w.left.tokenAt i).tokenSpan)
      (parsePathSegments n (w.right.tokenAt (i + w.shift)).tokenSpan) := by
  unfold parsePathSegments
  refine Matches.iterate (fun a b hab => segmentTurn_matches hi hab) n ?_
  exact ⟨rfl, i, le_rfl, fun _ => rfl, rfl, rfl⟩

/-! ### Documentation comments -/

theorem parseDocs_matches {tokenKind : Token.Kind} {nodeKind : NodeKind}
    (henc : encodingOf nodeKind = .name) :
    Matches w f (KidsAlike w) (parseDocs n tokenKind nodeKind) (parseDocs n tokenKind nodeKind) := by
  unfold parseDocs
  refine Matches.iterate (V := KidsAlike w) (fun as as' has => ?_) n .nil
  unfold docTurn
  refine (Matches.check _).bind ?_
  rintro b _ rfl
  split
  · refine Matches.advance.bind fun tok tok' htok => ?_
    refine (Names.internText htok.2).bind fun text text' => ?_
    refine (Matches.allocName List.mem_cons_self ⟨henc, by simp⟩ .nil).bind fun doc doc' hdoc => ?_
    exact Matches.pure (has.push hdoc)
  · exact Matches.pure has

theorem parseDocComments_matches :
    Matches w f (KidsAlike w) (parseDocComments n) (parseDocComments n) :=
  parseDocs_matches rfl

end Eter.Parser
