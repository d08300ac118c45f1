import Eter.SpanSteps

/-!
# Lists, paths, and documentation in the text
-/

namespace Eter.Parser
open Stateful Diag

variable {g : Ground} {c a b x n : ℕ} {s s' : PState} {el : ParserM NodeIndex} {close : Token.Kind}
  {front acc : List NodeIndex} {p : Prop}

/-- Elements of a list, wherever they begin from token `c` on. -/
def Elements (g : Ground) (c : ℕ) (el : ParserM NodeIndex) : Prop :=
  ∀ b s, c ≤ b → Good g b s → Lays el (Adds g b) s

theorem Elements.of (h : ∀ b s, Good g b s → Lays el (Laid g b) s) : Elements g c el :=
  fun b s _ hgood => (h b s hgood).mono fun _ _ _ hi => hi.adds

/-- Behind `front`, a row from `x` up to the cursor, which is not before token `c`. -/
def RowTo (g : Ground) (x c : ℕ) (front acc : List NodeIndex) (s : PState) : Prop :=
  ∃ b es, c ≤ b ∧ acc = front ++ es ∧ Good g b s ∧ Kids s x (g.before b) es

theorem RowTo.none (front : List NodeIndex) (h : Good g c s) (hx : x ≤ g.before c) :
    RowTo g x c front front s :=
  ⟨c, [], le_rfl, (List.append_nil _).symm, h, Kids.none hx⟩

/-- Nothing behind token `c` so far. -/
theorem RowTo.start (h : Good g (c + 1) s) : RowTo g (g.start c) (c + 1) [] [] s :=
  RowTo.none [] h (g.start_le_before c)

theorem Reaches.rowTo (h : Reaches g b s') (hle : s.Later s') {es : List NodeIndex}
    (hcb : c ≤ b) (hacc : acc = front ++ es) (hkids : Kids s x (g.before b) es) :
    RowTo g x c front acc s' := by
  obtain ⟨b', hbb, h'⟩ := h
  exact ⟨b', es, hcb.trans hbb, hacc, h', (hkids.later hle).to (g.before_mono hbb)⟩

theorem resyncElement_lays (h : Good g c s) (close : Token.Kind) (errorsBefore : ℕ) :
    Lays (resyncElement close errorsBefore) (fun _ s' => Reaches g c s') s := by
  unfold resyncElement skipToComma
  refine Lays.read rfl ?_
  split_ifs
  · exact h.skipUntil _
  · exact Lays.pure ⟨c, le_rfl, h⟩

/-- An element behind the row. -/
theorem RowTo.element (hel : Elements g c el) (h : RowTo g x c front acc s) :
    Lays el (fun i s' => RowTo g x c front (acc ++ [i]) s') s := by
  obtain ⟨b, es, hcb, hacc, h, hkids⟩ := h
  refine (hel b s hcb h).mono ?_
  rintro i s' hle ⟨b', hbb, h', hi⟩
  refine ⟨b', es ++ [i], hcb.trans hbb, ?_, h', (hkids.later hle).push hi le_rfl⟩
  rw [hacc, List.append_assoc]

theorem commaTurn_lays (hel : Elements g c el) (h : RowTo g x c front acc s) :
    Lays (commaTurn close el acc) (fun r s' => r.Leads (fun acc' => RowTo g x c front acc' s')
      (fun acc' => RowTo g x c front acc' s')) s := by
  unfold commaTurn
  refine Lays.read rfl ((h.element hel).bind ?_)
  rintro i s₁ - ⟨b, es, hcb, hacc, h₁, hkids₁⟩
  refine (resyncElement_lays h₁ close _).bind fun _ s₂ hle₂ h₂ => ?_
  have hrow₂ : RowTo g x c front (acc ++ [i]) s₂ := h₂.rowTo hle₂ hcb hacc hkids₁
  obtain ⟨b₂, es₂, hcb₂, hacc₂, h₂, hkids₂⟩ := hrow₂
  refine (h₂.consume (by decide)).bind ?_
  rintro _ s₃ hle₃ (⟨rfl, -, h₃⟩ | ⟨rfl, -, rfl⟩)
  · have hrow₃ : RowTo g x c front (acc ++ [i]) s₃ :=
      ⟨b₂ + 1, es₂, by omega, hacc₂, h₃, (hkids₂.later hle₃).to (g.before_mono (Nat.le_succ _))⟩
    rw [if_neg (by decide)]
    refine Lays.read rfl ?_
    split_ifs
    · exact Lays.pure hrow₃
    · exact Lays.pure hrow₃
  · exact Lays.pure ⟨b₂, es₂, hcb₂, hacc₂, h₂, hkids₂⟩

theorem parseCommaSeparated_lays (hel : Elements g c el) (h : RowTo g x c front acc s) :
    Lays (parseCommaSeparated n acc close el) (fun acc' s' => RowTo g x c front acc' s') s := by
  unfold parseCommaSeparated
  refine Lays.read rfl (Lays.read rfl ?_)
  split_ifs
  · exact Lays.pure h
  · exact Lays.iterate (I := fun acc' s' => RowTo g x c front acc' s')
      (fun _ _ hI => commaTurn_lays hel hI) n h

theorem parseMore_lays (hel : Elements g c el) {stop : Token.Kind → Bool}
    (h : RowTo g x c front acc s) :
    Lays (parseMore n acc stop el) (fun acc' s' => RowTo g x c front acc' s') s := by
  refine Lays.iterate (I := fun acc' s' => RowTo g x c front acc' s') (fun acc' s₁ hI => ?_) n h
  unfold moreTurn
  obtain ⟨b, es, hcb, hacc, h₁, hkids⟩ := hI
  refine (h₁.consume (by decide)).bind ?_
  rintro _ s₂ hle₂ (⟨rfl, -, h₂⟩ | ⟨rfl, -, rfl⟩)
  · have hrow₂ : RowTo g x c front acc' s₂ :=
      ⟨b + 1, es, by omega, hacc, h₂, (hkids.later hle₂).to (g.before_mono (Nat.le_succ _))⟩
    rw [if_neg (by decide)]
    refine Lays.read rfl ?_
    split_ifs
    · exact Lays.pure hrow₂
    · exact (hrow₂.element hel).bind fun i s₃ _ h₃ => Lays.pure h₃
  · exact Lays.pure ⟨b, es, hcb, hacc, h₁, hkids⟩

theorem parseUntil_lays (hel : Elements g c el) (h : RowTo g x c front acc s) :
    Lays (parseUntil n acc close el) (fun acc' s' => RowTo g x c front acc' s') s := by
  refine Lays.iterate (I := fun acc' s' => RowTo g x c front acc' s') (fun acc' s₁ hI => ?_) n h
  unfold untilTurn
  refine Lays.read rfl (Lays.read rfl ?_)
  split_ifs
  · exact Lays.pure hI
  · exact (hI.element hel).bind fun i s₂ _ h₂ => Lays.pure h₂

/-- A step that builds nothing keeps the row. -/
theorem RowTo.move {α : Type} {m : ParserM α} (h : RowTo g x c front acc s)
    (hm : ∀ b, c ≤ b → Good g b s → Lays m (fun _ s' => Reaches g b s') s) :
    Lays m (fun _ s' => RowTo g x c front acc s') s := by
  obtain ⟨b, es, hcb, hacc, h, hkids⟩ := h
  exact (hm b hcb h).mono fun _ s' hle h' => h'.rowTo hle hcb hacc hkids

/-- A token between two elements. -/
theorem RowTo.expect (h : RowTo g x c front acc s) {k : Token.Kind}
    (hk : k ≠ .eof) (d : DiagID) (context : String) :
    Lays (Parser.expect k d context) (fun _ s' => RowTo g x c front acc s') s := by
  obtain ⟨b, es, hcb, hacc, h, hkids⟩ := h
  refine (h.expect hk d context).mono ?_
  rintro _ s' hle ⟨-, b', hbb, -, -, -, h'⟩
  exact ⟨b', es, by omega, hacc, h', (hkids.later hle).to (g.before_mono hbb)⟩

/-- A separator behind an element. -/
theorem RowTo.consume (h : RowTo g x c front acc s) {k : Token.Kind} (hk : k ≠ .eof) :
    Lays (Parser.consume k) (fun _ s' => RowTo g x c front acc s') s := by
  obtain ⟨b, es, hcb, hacc, h, hkids⟩ := h
  refine (h.consume hk).mono ?_
  rintro _ s' hle (⟨-, -, h'⟩ | ⟨-, -, rfl⟩)
  · exact ⟨b + 1, es, by omega, hacc, h', (hkids.later hle).to (g.before_mono (Nat.le_succ b))⟩
  · exact ⟨b, es, hcb, hacc, h, hkids⟩

/-- A node behind the row. -/
theorem RowTo.push {i : NodeIndex} (hc : c ≤ b) {es : List NodeIndex} (hacc : acc = front ++ es)
    (hkids : Kids s x (g.before b) es) (hi : LaidIf p g b i s') (hle : s.Later s') :
    RowTo g x c front (acc ++ [i]) s' := by
  obtain ⟨b', hbb, -, h', hi⟩ := hi
  refine ⟨b', es ++ [i], hc.trans hbb, ?_, h', (hkids.later hle).push hi.kids le_rfl⟩
  rw [hacc, List.append_assoc]

/-- The elements of a list whose bracket closes it. -/
theorem RowTo.closed (h : RowTo g x c front acc s) {k : Token.Kind} (hk : k ≠ .eof) (d : DiagID)
    (context : String) :
    Lays (Parser.expect k d context) (fun t s' => ∃ j es, c ≤ j ∧ acc = front ++ es ∧
      t.tokenSpan = g.span j ∧ Behind g j k s' ∧ Kids s' x (g.before j) es) s := by
  obtain ⟨b, es, hcb, hacc, h, hkids⟩ := h
  refine (h.expect hk d context).mono ?_
  rintro t s' hle ⟨ht, hbehind⟩
  exact ⟨b, es, hcb, hacc, ht, hbehind, hkids.later hle⟩

/-- A list that ends with its closing bracket, and the node around it. -/
theorem RowTo.bracketIf (h : RowTo g (g.start a) c front acc s) (hba : b ≤ a) (hac : a ≤ c)
    (hdocs : DocKids s (g.start a) front) {k : Token.Kind} (hk : k ≠ .eof) {d : DiagID}
    {context : String} {kind : NodeKind} (hkind : kind ≠ .DocComment) {payload flags : ℕ} :
    Lays (Parser.expect k d context >>= fun t =>
        alloc kind ⟨g.start a, t.tokenSpan.end⟩ acc payload flags) (LaidIf (b < c) g b) s := by
  refine (h.closed hk d context).bind ?_
  rintro t s₁ hle ⟨j, es, hcj, hacc, ht, hbehind, hkids⟩
  rw [ht]
  exact (hbehind.alloc hba (by omega) hacc hkind (hdocs.later hle) hkids).mono
    fun _ _ _ hi => hi.weaken fun hbc => by omega

theorem RowTo.bracket (h : RowTo g (g.start a) c front acc s) (hba : b ≤ a) (hac : a < c)
    (hdocs : DocKids s (g.start a) front) {k : Token.Kind} (hk : k ≠ .eof) {d : DiagID}
    {context : String} {kind : NodeKind} (hkind : kind ≠ .DocComment) {payload flags : ℕ} :
    Lays (Parser.expect k d context >>= fun t =>
        alloc kind ⟨g.start a, t.tokenSpan.end⟩ acc payload flags) (LaidMoving g b) s :=
  (h.bracketIf hba (by omega) hdocs hk hkind).mono fun _ _ _ hi => hi.weaken fun _ => by omega

/-- A list that ends with the previous token, and the node around it. -/
theorem RowTo.allocPrevious (h : RowTo g (g.start a) c front acc s) (hba : b ≤ a) (hac : a < c)
    (hdocs : DocKids s (g.start a) front) {kind : NodeKind} (hkind : kind ≠ .DocComment)
    {payload flags : ℕ} :
    Lays (Parser.previous >>= fun t =>
        alloc kind ⟨g.start a, t.tokenSpan.end⟩ acc payload flags) (LaidMoving g b) s := by
  obtain ⟨d, es, hcd, hacc, h, hkids⟩ := h
  obtain ⟨d, rfl⟩ : ∃ d', d = d' + 1 := ⟨d - 1, by omega⟩
  exact h.bindPrevious (h.allocPrevious hba (by omega) hacc hkind hdocs hkids)

/-! ### Paths -/

theorem skipRedundantSeparators_lays (h : Good g c s) :
    Lays (skipRedundantSeparators n) (fun _ s' => Reaches g c s') s := by
  refine Lays.iterate (I := fun _ s' => Reaches g c s') ?_ n ⟨c, le_rfl, h⟩
  rintro _ s₁ ⟨b, hcb, h₁⟩
  unfold redundantTurn
  refine h₁.bindCheck _ ?_
  split_ifs with hk
  · refine h₁.bindPeekToken (Lays.bind (h₁.addError (g.proper_span b) _) ?_)
    rintro _ s₂ - ⟨h₂, -⟩
    refine h₂.bindAdvance (by simp_all) fun s₃ _ h₃ => ?_
    exact Lays.pure ⟨b + 1, by omega, h₃⟩
  · exact Lays.pure ⟨b, hcb, h₁⟩

/-- A path from token `a` up to the cursor. -/
def PathTo (g : Ground) (a : ℕ) (p : Span) (s : PState) : Prop :=
  ∃ b, a ≤ b ∧ p = ⟨g.start a, g.before (b + 1)⟩ ∧ Good g (b + 1) s

theorem PathTo.token (h : Good g (a + 1) s) : PathTo g a (g.side.tokenAt a).tokenSpan s :=
  ⟨a, le_rfl, rfl, h⟩

theorem segmentTurn_lays {p : Bool × Span} (h : PathTo g a p.2 s) :
    Lays (segmentTurn n p) (fun r s' => r.Leads (fun p' => PathTo g a p'.2 s')
      (fun p' => PathTo g a p'.2 s')) s := by
  obtain ⟨b, hab, hp, h⟩ := h
  unfold segmentTurn
  refine h.bindCheck _ ?_
  split_ifs with hk
  · refine h.bindAdvance (by simp_all) fun s₁ _ h₁ => ?_
    refine (skipRedundantSeparators_lays h₁).bind ?_
    rintro _ s₂ - ⟨b₂, hb₂, h₂⟩
    refine (h₂.expect (by decide) _ _).bind ?_
    rintro t s₃ - ⟨-, b₃, hb₃, -, -, -, h₃⟩
    obtain ⟨b₃, rfl⟩ : ∃ b', b₃ = b' + 1 := ⟨b₃ - 1, by omega⟩
    refine h₃.bindPrevious (Lays.pure ⟨b₃, by omega, ?_, h₃⟩)
    rw [hp]
    rfl
  · exact Lays.pure ⟨b, hab, hp, h⟩

theorem parsePathSegments_lays (h : Good g (a + 1) s) :
    Lays (parsePathSegments n (g.side.tokenAt a).tokenSpan) (fun p s' => PathTo g a p.2 s') s :=
  Lays.iterate (I := fun p s' => PathTo g a p.2 s') (fun _ _ hI => segmentTurn_lays hI) n
    (PathTo.token h)

/-- A leaf over a path. -/
theorem Good.allocPath (h : Good g (b + 1) s) (hab : a ≤ b) {kind : NodeKind}
    (hkind : kind ≠ .DocComment) (payload : ℕ) :
    Lays (allocLeaf kind ⟨g.start a, g.before (b + 1)⟩ payload) (LaidMoving g a) s :=
  h.allocPrevious le_rfl hab (List.append_nil []).symm hkind DocKids.none
    (Kids.none (g.start_le_before_of_lt (by omega)))

/-! ### Documentation -/

theorem parseDocComments_lays (h : Good g c s) :
    Lays (parseDocComments n) (fun docs s' => ∃ b, c ≤ b ∧ Good g b s' ∧
      DocKids s' (g.before b) docs) s := by
  refine Lays.iterate (I := fun docs s' => ∃ b, c ≤ b ∧ Good g b s' ∧
    DocKids s' (g.before b) docs) ?_ n ⟨c, le_rfl, h, DocKids.none⟩
  rintro docs s₁ ⟨b, hcb, h₁, hdocs⟩
  unfold docTurn
  refine h₁.bindCheck _ ?_
  split_ifs with hk
  · refine h₁.bindAdvance (by simp_all) fun s₂ hle₂ h₂ => ?_
    refine (h₂.internText _).bind fun text s₃ hle₃ h₃ => ?_
    refine (h₃.allocDoc text).bind ?_
    rintro i s₄ hle₄ ⟨h₄, hi⟩
    refine Lays.pure ⟨b + 1, by omega, h₄, fun hs j hj => ?_⟩
    rcases List.mem_append.mp hj with hj | hj
    · exact ((hdocs.later (hle₂.trans (hle₃.trans hle₄))).widen (g.before_mono (Nat.le_succ b)))
        hs j hj
    · exact hi hs j hj
  · exact Lays.pure ⟨b, hcb, h₁, hdocs⟩

end Eter.Parser
