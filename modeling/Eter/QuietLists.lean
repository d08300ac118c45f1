import Eter.QuietRuns
import Eter.GrammarLists

/-!
# Lists, paths, and marks are found
-/

namespace Eter.Parser
open Stateful NodePool Diag

variable {α : Type} {st : TokenStream} {lit : Bool} {s t : PState} {n N e i j : ℕ}
  {Q : α → PState → Prop} {el : ParserM NodeIndex} {ph : Phrase} {cs : List NodeIndex}
  {tr : SyntaxTree} {ts : List SyntaxTree} {word : Token.Kind} {close : Token.Kind → Bool}

instance (k : Token.Kind) (d : ℕ) : Ascends (resyncElement k d) :=
  ascends_of_leads (precedes_walk.resyncElement k d)

instance : Ascends parseRegime := ascends_of_leads precedes_walk.parseRegime

instance [h : Ascends el] : Ascends (parseCommaSeparated N cs word el) :=
  ascends_of_leads (precedes_walk.parseCommaSeparated N cs word h.le)

instance [h : Ascends el] : Ascends (parseMore N cs close el) :=
  ascends_of_leads (precedes_walk.parseMore N cs close h.le)

instance [h : Ascends el] : Ascends (parseUntil N cs word el) :=
  ascends_of_leads (precedes_walk.parseUntil N cs word h.le)

instance (span : Span) : Ascends (parsePathSegments n span) :=
  ascends_of_leads (precedes_walk.parsePathSegments n span)

instance (tokenKind : Token.Kind) (kind : NodeKind) : Ascends (parseDocs n tokenKind kind) :=
  ascends_of_leads (precedes_walk.parseDocs tokenKind kind)

/-! ### Lists -/

theorem AtToken.errorsSize {f : ℕ → ParserM α} (h : AtToken st lit e i s) (hf : Quiet (f e) Q s) :
    Quiet (Parser.errorsSize >>= f) Q s := by
  rw [← h.noise] at hf
  exact Silent.read rfl hf

theorem AtToken.resync {f : Unit → ParserM α} (h : AtToken st lit e i s) (hf : Quiet (f ()) Q s) :
    Quiet (resyncElement word e >>= f) Q s := by
  unfold resyncElement
  rw [bind_assoc]
  refine h.errorsSize ?_
  rw [if_neg (by simp), pure_bind]
  exact hf

/-- How many nodes a list has, and what it is. -/
def FoundList (ph : Phrase) (st : TokenStream) (lit : Bool) (i : ℕ) (cs ys : List NodeIndex)
    (t : PState) : Prop :=
  ∃ ts, Derives st lit ph i t.stream.cursor ts ∧ ys.length = cs.length + ts.length

theorem AtToken.list {m : ParserM (List NodeIndex)} {f : List NodeIndex → ParserM α} [Ascends m]
    [∀ ys, Ascends (f ys)] (h : AtToken st lit e i s) (hm : Quiet m (FoundList ph st lit i cs) s)
    (hf : ∀ ys j ts t, AtToken st lit e j t → Derives st lit ph i j ts →
      ys.length = cs.length + ts.length → Quiet (f ys) Q t) : Quiet (m >>= f) Q s :=
  h.call hm fun ys _ t ht hj hfound => by
    obtain ⟨ts, hts, hlen⟩ := hfound
    exact hf ys _ ts t ht (hj ▸ hts) hlen

instance [Ascends el] : Ascends (commaTurn word el cs) := by
  unfold commaTurn
  infer_instance

instance [Ascends el] : Ascends (moreTurn close el cs) := by
  unfold moreTurn
  infer_instance

theorem comma_finds [Ascends el] (hel : Recognises st lit ph el) (h : AtToken st lit e i s) :
    Quiet (iterate (commaTurn word el) N cs) (FoundList (.commas ph) st lit i cs) s := by
  induction N generalizing i s cs with
  | zero => exact Silent.throw
  | succ N ih =>
    refine Silent.turn noise_mono (A := fun cs' t => ∃ x j tr, cs' = cs ++ [x] ∧
      AtToken st lit e (j + 1) t ∧ st.kindAt j = .comma ∧ Derives st lit ph i j [tr]) ?_ ?_
    · unfold commaTurn
      refine h.errorsSize (h.find (hel i) fun x j tr t ht _ htr => ht.resync ?_)
      have hdone : ∀ u, AtToken st lit e j u ∨ AtToken st lit e (j + 1) u ∧ st.kindAt j = .comma →
          FoundList (.commas ph) st lit i cs (cs ++ [x]) u := by
        rintro u (hu | ⟨hu, hk⟩)
        · exact ⟨[tr], hu.cursor ▸ .lastCommas htr, by simp⟩
        · exact ⟨[tr], hu.cursor ▸ .moreCommas htr hk .noCommas, by simp⟩
      refine ht.consume (by decide) (fun hk u hu => ?_) fun _ => Silent.pure (hdone t (.inl ht))
      rw [if_neg (by decide)]
      refine hu.branch (fun _ => Silent.pure (hdone u (.inr ⟨hu, hk⟩))) fun _ => ?_
      exact Silent.pure ⟨x, j, tr, rfl, hu, hk, htr⟩
    · rintro _ t ⟨x, j, tr, rfl, ht, hk, htr⟩
      refine (ih ht).mono fun ys u hu => ?_
      obtain ⟨ts, hts, hlen⟩ := hu
      refine ⟨tr :: ts, .moreCommas htr hk hts, ?_⟩
      rw [hlen]
      simp only [List.length_append, List.length_cons, List.length_nil]
      omega

theorem AtToken.commaSeparated {f : List NodeIndex → ParserM α} [Ascends el]
    [∀ ys, Ascends (f ys)] (h : AtToken st lit e i s) (hel : Recognises st lit ph el)
    (hf : ∀ ys j ts t, AtToken st lit e j t → Derives st lit (.commas ph) i j ts →
      ys.length = cs.length + ts.length → Quiet (f ys) Q t) :
    Quiet (parseCommaSeparated N cs word el >>= f) Q s := by
  refine h.list ?_ hf
  unfold parseCommaSeparated
  refine h.check (h.atEof ?_)
  split
  · refine Silent.pure ⟨[], ?_, by simp⟩
    rw [h.cursor]
    exact .noCommas
  · exact comma_finds hel h

/-- The elements of a list, as the grammar has them. -/
def Derived (st : TokenStream) (lit : Bool) (ph : Phrase) (i j : ℕ) (tr : SyntaxTree) : Prop :=
  Derives st lit ph i j [tr]

theorem more_finds [Ascends el] (hel : Recognises st lit ph el) (h : AtToken st lit e i s) :
    Quiet (parseMore N cs close el) (fun ys t => ∃ ts,
      MoreOf st (Derived st lit ph) close i t.stream.cursor ts ∧ ys.length = cs.length + ts.length)
      s := by
  unfold parseMore
  induction N generalizing i s cs with
  | zero => exact Silent.throw
  | succ N ih =>
    refine Silent.turn noise_mono (A := fun cs' t => ∃ x j tr, cs' = cs ++ [x] ∧
      AtToken st lit e j t ∧ st.kindAt i = .comma ∧ close (st.kindAt (i + 1)) = false ∧
      Derives st lit ph (i + 1) j [tr]) ?_ ?_
    · unfold moreTurn
      refine h.consume (by decide) (fun hk t ht => ?_) fun hk => ?_
      · rw [if_neg (by decide)]
        refine ht.peek ?_
        split
        · next hclose => exact Silent.pure ⟨[], ht.cursor ▸ .trailing hk hclose, by simp⟩
        · next hclose =>
          refine ht.find (hel (i + 1)) fun x j tr u hu _ htr => ?_
          exact Silent.pure ⟨x, j, tr, rfl, hu, hk, by simpa using hclose, htr⟩
      · rw [if_pos (by decide)]
        exact Silent.pure ⟨[], by rw [h.cursor]; exact .stop hk, by simp⟩
    · rintro _ t ⟨x, j, tr, rfl, ht, hk, hclose, htr⟩
      refine (ih ht).mono fun ys u hu => ?_
      obtain ⟨ts, hts, hlen⟩ := hu
      refine ⟨tr :: ts, .cons hk hclose htr hts, ?_⟩
      rw [hlen]
      simp only [List.length_append, List.length_cons, List.length_nil]
      omega

theorem AtToken.more {f : List NodeIndex → ParserM α} [Ascends el] [∀ ys, Ascends (f ys)]
    (h : AtToken st lit e i s) (hel : Recognises st lit ph el)
    (hf : ∀ ys j ts t, AtToken st lit e j t → MoreOf st (Derived st lit ph) close i j ts →
      ys.length = cs.length + ts.length → Quiet (f ys) Q t) :
    Quiet (parseMore N cs close el >>= f) Q s :=
  h.call (more_finds hel h) fun ys _ t ht hj hfound => by
    obtain ⟨ts, hts, hlen⟩ := hfound
    exact hf ys _ ts t ht (hj ▸ hts) hlen

theorem MoreOf.commas {k : ℕ} (h : MoreOf st (Derived st lit ph) close j k ts)
    (htr : Derives st lit ph i j [tr]) : Derives st lit (.commas ph) i k (tr :: ts) := by
  induction h generalizing i tr with
  | stop => exact .lastCommas htr
  | trailing hk => exact .moreCommas htr hk .noCommas
  | cons hk _ helem _ ih => exact .moreCommas htr hk (ih helem)

theorem MoreOf.list {k : ℕ} (h : MoreOf st (Derived st lit ph) (fun _ => false) j k ts)
    (htr : Derives st lit ph i j [tr]) : Derives st lit (.list ph) i k (tr :: ts) := by
  induction h generalizing i tr with
  | stop => exact .lastList htr
  | trailing _ hclose => cases hclose
  | cons hk _ helem _ ih => exact .moreList htr hk (ih helem)

/-- A list with a first element, or none before a token. -/
theorem first_finds [Ascends el] {phl : Phrase} (hel : Recognises st lit ph el)
    (h : AtToken st lit e i s) (hnil : ∀ i, Derives st lit phl i i [])
    (hcons : ∀ i j k tr ts, Derives st lit ph i j [tr] → MoreOf st (Derived st lit ph) close j k ts →
      Derives st lit phl i k (tr :: ts)) :
    Quiet (do
      if ← check word then pure []
      else
        let first ← el
        parseMore N [first] close el) (FoundList phl st lit i []) s := by
  refine h.branch (fun _ => Silent.pure ⟨[], h.cursor ▸ hnil _, rfl⟩) fun _ => ?_
  refine h.find (hel i) fun x j tr t ht _ htr => (more_finds hel ht).mono fun ys u hys => ?_
  obtain ⟨ts, hmore, hlen⟩ := hys
  exact ⟨tr :: ts, hcons _ _ _ _ _ htr hmore, by rw [hlen]; simp; omega⟩

instance [Ascends el] : Ascends (untilTurn word el cs) := by
  unfold untilTurn
  infer_instance

/-- Derived up to a token or the end of the file. -/
theorem until_finds [Ascends el] (hel : Recognises st lit ph el) (h : AtToken st lit e i s) :
    Quiet (parseUntil N cs word el) (FoundList (.seq ph) st lit i cs) s := by
  unfold parseUntil
  induction N generalizing i s cs with
  | zero => exact Silent.throw
  | succ N ih =>
    refine Silent.turn noise_mono (A := fun cs' t => ∃ x j tr, cs' = cs ++ [x] ∧
      AtToken st lit e j t ∧ Derives st lit ph i j [tr]) ?_ ?_
    · unfold untilTurn
      refine h.check (h.atEof ?_)
      split
      · exact Silent.pure ⟨[], h.cursor ▸ .noSeq, by simp⟩
      · refine h.find (hel i) fun x j tr t ht _ htr => ?_
        exact Silent.pure ⟨x, j, tr, rfl, ht, htr⟩
    · rintro _ t ⟨x, j, tr, rfl, ht, htr⟩
      refine (ih ht).mono fun ys u hu => ?_
      obtain ⟨ts, hts, hlen⟩ := hu
      refine ⟨tr :: ts, .moreSeq htr hts, ?_⟩
      rw [hlen]
      simp only [List.length_append, List.length_cons, List.length_nil]
      omega

theorem AtToken.parseUntil {f : List NodeIndex → ParserM α} [Ascends el] [∀ ys, Ascends (f ys)]
    (h : AtToken st lit e i s) (hel : Recognises st lit ph el)
    (hf : ∀ ys j ts t, AtToken st lit e j t → Derives st lit (.seq ph) i j ts → Quiet (f ys) Q t) :
    Quiet (Parser.parseUntil N cs word el >>= f) Q s :=
  h.list (until_finds hel h) fun ys j ts t ht hts _ => hf ys j ts t ht hts

/-! ### Paths -/

instance (u : Unit) : Ascends (redundantTurn u) := by
  unfold redundantTurn Parser.addError
  infer_instance

instance : Ascends (skipRedundantSeparators n) := by
  unfold skipRedundantSeparators iterate
  infer_instance

instance (acc : Bool × Span) : Ascends (segmentTurn n acc) := by
  unfold segmentTurn
  infer_instance

/-- A redundant separator is reported. -/
theorem redundant_finds (h : AtToken st lit e i s) :
    Quiet (skipRedundantSeparators n) (fun _ t => AtToken st lit e i t) s := by
  unfold skipRedundantSeparators
  cases n with
  | zero => exact Silent.throw
  | succ n =>
    refine Silent.turn noise_mono (A := fun _ _ => False) ?_ fun _ _ h => h.elim
    unfold redundantTurn
    refine h.branch (fun _ => h.peekToken Quiet.addError) fun _ => Silent.pure h

theorem segments_find (h : AtToken st lit e i s) (acc : Bool × Span) :
    Quiet (iterate (segmentTurn n) N acc) (fun _ t => Segments st i t.stream.cursor ∧
      st.kindAt t.stream.cursor ≠ .colon_colon) s := by
  induction N generalizing i s acc with
  | zero => exact Silent.throw
  | succ N ih =>
    refine Silent.turn noise_mono (A := fun _ t => AtToken st lit e (i + 2) t ∧
      st.kindAt i = .colon_colon ∧ st.kindAt (i + 1) = .identifier) ?_ ?_
    · unfold segmentTurn
      refine h.branch (fun hk => ?_) fun hk => Silent.pure ⟨h.cursor ▸ .nil, by rwa [h.cursor]⟩
      refine h.advance (by rw [hk]; decide) fun t ht => ?_
      refine ht.call (redundant_finds ht) fun _ _ u _ _ hu => ?_
      refine hu.expect (by decide) fun hname v hv => Quiet.previous fun tok => ?_
      exact Silent.pure ⟨hv, hk, hname⟩
    · rintro acc' t ⟨ht, hsep, hname⟩
      exact (ih ht acc').mono fun _ u hu => ⟨.cons hsep hname hu.1, hu.2⟩

theorem AtToken.pathSegments {span : Span} {f : Bool × Span → ParserM α} [∀ r, Ascends (f r)]
    (h : AtToken st lit e i s)
    (hf : ∀ r j t, AtToken st lit e j t → Segments st i j → st.kindAt j ≠ .colon_colon →
      Quiet (f r) Q t) : Quiet (parsePathSegments n span >>= f) Q s :=
  h.call (segments_find h _) fun r j t ht hj hR => by
    subst hj
    exact hf r _ t ht hR.1 hR.2

/-! ### Docs and regimes -/

instance (tokenKind : Token.Kind) (kind : NodeKind) : Ascends (docTurn tokenKind kind cs) := by
  unfold docTurn
  infer_instance

theorem docs_find {kind : NodeKind} (hword : word ≠ .eof) (hkind : kind ≠ .Error)
    (h : AtToken st lit e i s) :
    Quiet (iterate (docTurn word kind) N cs) (fun _ t => ∃ ts, Docs st word kind i t.stream.cursor ts)
      s := by
  induction N generalizing i s cs with
  | zero => exact Silent.throw
  | succ N ih =>
    refine Silent.turn noise_mono (A := fun _ t => AtToken st lit e (i + 1) t ∧
      st.kindAt i = word) ?_ ?_
    · unfold docTurn
      refine h.branch (fun hk => ?_) fun _ => Silent.pure ⟨[], h.cursor ▸ .nil⟩
      refine h.advance (by rwa [hk]) fun t ht => ht.internText fun id u hu _ => ?_
      exact hu.alloc_then hkind fun x v hv _ => Silent.pure ⟨hv, hk⟩
    · rintro cs' t ⟨ht, hk⟩
      refine (ih ht).mono fun ys u hu => ?_
      obtain ⟨ts, hts⟩ := hu
      exact ⟨_, .cons hk hts⟩

theorem AtToken.parseRegime {f : Regime → ParserM α} (h : AtToken st lit e i s)
    (hf : ∀ r j t, AtToken st lit e j t → Marks st i j r → Quiet (f r) Q t) :
    Quiet (Parser.parseRegime >>= f) Q s := by
  unfold Parser.parseRegime
  rw [bind_assoc]
  refine h.peek ?_
  split
  · next hk =>
    rw [bind_assoc]
    exact h.advance (by rw [hk]; decide) fun t ht => hf _ _ t ht (.isImm hk)
  · next hk =>
    rw [bind_assoc]
    exact h.advance (by rw [hk]; decide) fun t ht => hf _ _ t ht (.isMut hk)
  · next hk =>
    rw [bind_assoc]
    exact h.advance (by rw [hk]; decide) fun t ht => hf _ _ t ht (.isProj hk)
  · exact hf _ _ s h .unmarked

end Eter.Parser
