import Eter.GatheredNodes

/-!
# Lists, paths, and marks

The stretches that are read by a loop. A list of the grammar is read by the loop of its place: with
a comma behind the last element, without one, or with no commas at all.
-/

namespace Eter.Parser
open Stateful NodePool Diag

variable {α β : Type} {st : TokenStream} {lit b : Bool} {s t u : PState} {n N e i j k : ℕ}
  {names : List (InternedStr × Bytes)} {x : NodeIndex} {xs cs : List NodeIndex} {tr : SyntaxTree}
  {ts ts' : List SyntaxTree} {word : Token.Kind} {Q : α → PState → Prop} {p : ℕ → ParserM NodeIndex}
  {E : ℕ → ℕ → SyntaxTree → Prop} {close : Token.Kind → Bool}

/-! ### Lists -/

/-- Elements with commas between them and perhaps one behind them. -/
inductive CommasOf (st : TokenStream) (E : ℕ → ℕ → SyntaxTree → Prop) :
    ℕ → ℕ → List SyntaxTree → Prop where
  | nil {i : ℕ} : CommasOf st E i i []
  | last {i j : ℕ} {tr : SyntaxTree} (h : E i j tr) : CommasOf st E i j [tr]
  | cons {i j k : ℕ} {tr : SyntaxTree} {ts : List SyntaxTree} (h : E i j tr)
      (hcomma : st.kindAt j = .comma) (hrest : CommasOf st E (j + 1) k ts) :
      CommasOf st E i k (tr :: ts)

/-- Elements with commas between them. -/
inductive ListOf (st : TokenStream) (E : ℕ → ℕ → SyntaxTree → Prop) :
    ℕ → ℕ → List SyntaxTree → Prop where
  | nil {i : ℕ} : ListOf st E i i []
  | last {i j : ℕ} {tr : SyntaxTree} (h : E i j tr) : ListOf st E i j [tr]
  | cons {i j k : ℕ} {tr tr' : SyntaxTree} {ts : List SyntaxTree} (h : E i j tr)
      (hcomma : st.kindAt j = .comma) (hrest : ListOf st E (j + 1) k (tr' :: ts)) :
      ListOf st E i k (tr :: tr' :: ts)

/-- Elements one after the other. -/
inductive SeqOf (E : ℕ → ℕ → SyntaxTree → Prop) : ℕ → ℕ → List SyntaxTree → Prop where
  | nil {i : ℕ} : SeqOf E i i []
  | cons {i j k : ℕ} {tr : SyntaxTree} {ts : List SyntaxTree} (h : E i j tr)
      (hrest : SeqOf E j k ts) : SeqOf E i k (tr :: ts)

/-- What a loop finds behind an element: nothing, a last comma, or a comma and more. -/
inductive MoreOf (st : TokenStream) (E : ℕ → ℕ → SyntaxTree → Prop) (close : Token.Kind → Bool) :
    ℕ → ℕ → List SyntaxTree → Prop where
  | stop {i : ℕ} (h : st.kindAt i ≠ .comma) : MoreOf st E close i i []
  | trailing {i : ℕ} (h : st.kindAt i = .comma) (hclose : close (st.kindAt (i + 1)) = true) :
      MoreOf st E close i (i + 1) []
  | cons {i j k : ℕ} {tr : SyntaxTree} {ts : List SyntaxTree} (h : st.kindAt i = .comma)
      (hopen : close (st.kindAt (i + 1)) = false) (helem : E (i + 1) j tr)
      (hrest : MoreOf st E close j k ts) : MoreOf st E close i k (tr :: ts)

/-- An empty list, or a first element and what is behind it. -/
def FirstOf (st : TokenStream) (E : ℕ → ℕ → SyntaxTree → Prop) (close : Token.Kind → Bool)
    (i k : ℕ) (ts : List SyntaxTree) : Prop :=
  (k = i ∧ ts = []) ∨ ∃ j tr ts', ts = tr :: ts' ∧ E i j tr ∧ MoreOf st E close j k ts'

theorem CommasOf.first (h : CommasOf st E i k ts)
    (hstarts : ∀ i j tr, E i j tr → close (st.kindAt i) = false)
    (hclose : close (st.kindAt k) = true) (hcomma : st.kindAt k ≠ .comma) :
    FirstOf st E close i k ts := by
  induction h with
  | nil => exact .inl ⟨rfl, rfl⟩
  | last h => exact .inr ⟨_, _, _, rfl, h, .stop hcomma⟩
  | cons h hj _ ih =>
    refine .inr ⟨_, _, _, rfl, h, ?_⟩
    rcases ih hclose hcomma with ⟨rfl, rfl⟩ | ⟨j', tr', ts', rfl, h', hmore⟩
    · exact .trailing hj hclose
    · exact .cons hj (hstarts _ _ _ h') h' hmore

theorem ListOf.first (h : ListOf st E i k ts) (hcomma : st.kindAt k ≠ .comma) :
    FirstOf st E (fun _ => false) i k ts := by
  induction h with
  | nil => exact .inl ⟨rfl, rfl⟩
  | last h => exact .inr ⟨_, _, _, rfl, h, .stop hcomma⟩
  | cons h hj _ ih =>
    refine .inr ⟨_, _, _, rfl, h, ?_⟩
    rcases ih hcomma with ⟨-, hnil⟩ | ⟨j', tr', ts', hcons, h', hmore⟩
    · cases hnil
    · cases hcons
      exact .cons hj rfl h' hmore

theorem CommasOf.of_element (h : CommasOf st (Element st lit p e) i k ts)
    (hopen : ∀ w, closesElement w = false → close w = false) (hclose : close (st.kindAt k) = true)
    (hcomma : st.kindAt k ≠ .comma) : FirstOf st (Element st lit p e) close i k ts :=
  h.first (fun _ _ _ h => hopen _ h.starts) hclose hcomma

theorem MoreOf.imp {E' : ℕ → ℕ → SyntaxTree → Prop} (h : MoreOf st E close i k ts)
    (hE : ∀ i j tr, E i j tr → E' i j tr) : MoreOf st E' close i k ts := by
  induction h with
  | stop h => exact .stop h
  | trailing h hclose => exact .trailing h hclose
  | cons h hopen helem _ ih => exact .cons h hopen (hE _ _ _ helem) ih

theorem MoreOf.length_le (h : MoreOf st (Element st lit p e) close i k ts) : i + ts.length ≤ k := by
  induction h with
  | stop => simp
  | trailing => simp
  | cons _ _ helem _ ih =>
    have hlt := helem.lt
    rw [List.length_cons]
    omega

theorem SeqOf.length_le (h : SeqOf E i k ts) (hE : ∀ i j tr, E i j tr → i < j) :
    i + ts.length ≤ k := by
  induction h with
  | nil => simp
  | cons h _ ih =>
    have hlt := hE _ _ _ h
    rw [List.length_cons]
    omega

/-! ### Loops -/

/-- The result lists what was gathered behind `cs`. -/
def GathersTo (st : TokenStream) (lit : Bool) (s : PState) (k : ℕ)
    (names : List (InternedStr × Bytes)) (xs : List NodeIndex) (ts : List SyntaxTree)
    (cs : List NodeIndex) (ys : List NodeIndex) (u : PState) : Prop :=
  ∃ zs, ys = cs ++ zs ∧ Gathered st lit s k names (xs ++ zs) ts u

theorem Gathered.none_to (h : Gathered st lit s k names xs ts t) (cs : List NodeIndex) :
    GathersTo st lit s k names xs ts cs cs t :=
  ⟨[], by simp, by simpa using h⟩

theorem Gathered.one_to (h : Gathered st lit s k names (xs ++ [x]) ts t) (cs : List NodeIndex) :
    GathersTo st lit s k names xs ts cs (cs ++ [x]) t :=
  ⟨[x], rfl, h⟩

theorem GathersTo.behind {ys : List NodeIndex}
    (h : GathersTo st lit s k names (xs ++ [x]) ts (cs ++ [x]) ys u) :
    GathersTo st lit s k names xs ts cs ys u := by
  obtain ⟨zs, rfl, hu⟩ := h
  exact ⟨x :: zs, by simp, by simpa using hu⟩

theorem Gathered.more_runs (h : Gathered st lit s j names xs ts t)
    (hm : MoreOf st (Element st lit p e) close j k ts') (hn : 4 * (k - j) + e ≤ n + 4)
    (hN : ts'.length < N) : Yields (Parser.parseMore N cs close (p n))
      (GathersTo st lit s k names xs (ts ++ ts') cs) t := by
  induction hm generalizing t xs ts cs N with
  | stop hk =>
    obtain ⟨N, rfl⟩ := Nat.exists_eq_add_of_le' hN
    unfold Parser.parseMore iterate Stateful.iterate moreTurn
    rw [bind_assoc]
    refine h.consume_miss hk (Yields.pure ?_)
    rw [List.append_nil]
    exact h.none_to cs
  | trailing hk hclose =>
    obtain ⟨N, rfl⟩ := Nat.exists_eq_add_of_le' hN
    unfold Parser.parseMore iterate Stateful.iterate moreTurn
    rw [bind_assoc]
    refine h.consume_hit hk (by decide) fun u hu => ?_
    rw [if_neg (by decide), bind_assoc]
    refine hu.peek ?_
    rw [if_pos hclose]
    refine Yields.pure ?_
    rw [List.append_nil]
    exact hu.none_to cs
  | @cons i j k tr ts' hk hopen helem hrest ih =>
    obtain ⟨N, rfl⟩ : ∃ N', N = N' + 1 := ⟨N - 1, by omega⟩
    have hlt := helem.lt
    have hle := hrest.length_le
    unfold Parser.parseMore iterate Stateful.iterate moreTurn
    rw [bind_assoc]
    refine h.consume_hit hk (by decide) fun u hu => ?_
    rw [if_neg (by decide), bind_assoc]
    refine hu.peek ?_
    rw [hopen, if_neg (by decide), bind_assoc]
    refine hu.call helem rfl (by omega) fun x v hv => ?_
    have hloop : Yields (Parser.parseMore N (cs ++ [x]) close (p n)) _ v :=
      ih hv (by omega) (by simpa using hN)
    refine hloop.mono fun ys w hw => ?_
    rw [List.append_assoc] at hw
    exact hw.behind

theorem Gathered.parseMore {f : List NodeIndex → ParserM α} {m : ParserM NodeIndex}
    (h : Gathered st lit s j names xs ts t) (hl : MoreOf st (Element st lit p e) close j k ts')
    (hm : p n = m) (hn : 4 * (k - j) + e ≤ n + 4) (hN : ts'.length < N)
    (hf : ∀ zs u, Gathered st lit s k names (xs ++ zs) (ts ++ ts') u → Yields (f (cs ++ zs)) Q u) :
    Yields (Parser.parseMore N cs close m >>= f) Q t := by
  subst hm
  refine (h.more_runs hl hn hN).bind ?_
  rintro _ u ⟨zs, rfl, hu⟩
  exact hf zs u hu

theorem Gathered.resync {f : Unit → ParserM α} (h : Gathered st lit s j names xs ts t)
    (hf : Yields (f ()) Q t) : Yields (resyncElement word s.errors.length >>= f) Q t := by
  refine Yields.bind (R := fun _ u => u = t) ?_ (by rintro _ _ rfl; exact hf)
  unfold resyncElement
  refine h.errorsSize ?_
  rw [if_neg (by simp)]
  exact Yields.pure rfl

/-- The loop over a list up to `word`: an element and what is behind it. -/
theorem Gathered.comma_runs (h : Gathered st lit s i names xs ts t)
    (helem : Element st lit p e i j tr)
    (hm : MoreOf st (Element st lit p e) (fun w => w = word) j k ts')
    (hn : 4 * (k - i) + e ≤ n) (hN : ts'.length < N) :
    Yields (iterate (commaTurn word (p n)) N cs)
      (GathersTo st lit s k names xs (ts ++ tr :: ts') cs) t := by
  induction hm generalizing i t xs ts cs N tr with
  | stop hk =>
    obtain ⟨N, rfl⟩ := Nat.exists_eq_add_of_le' hN
    unfold iterate Stateful.iterate commaTurn
    rw [bind_assoc]
    refine h.errorsSize ?_
    rw [bind_assoc]
    refine h.call helem rfl hn fun x u hu => ?_
    rw [bind_assoc]
    refine hu.resync ?_
    rw [bind_assoc]
    refine hu.consume_miss hk (Yields.pure ?_)
    exact hu.one_to cs
  | @trailing j hk hclose =>
    obtain ⟨N, rfl⟩ := Nat.exists_eq_add_of_le' hN
    have hlt := helem.lt
    unfold iterate Stateful.iterate commaTurn
    rw [bind_assoc]
    refine h.errorsSize ?_
    rw [bind_assoc]
    refine h.call helem rfl (by omega) fun x u hu => ?_
    rw [bind_assoc]
    refine hu.resync ?_
    rw [bind_assoc]
    refine hu.consume_hit hk (by decide) fun v hv => ?_
    rw [if_neg (by decide), bind_assoc]
    refine hv.check ?_
    rw [hclose, if_pos rfl]
    exact Yields.pure (hv.one_to cs)
  | @cons j k l tr' ts' hk hopen helem' hrest ih =>
    obtain ⟨N, rfl⟩ : ∃ N', N = N' + 1 := ⟨N - 1, by omega⟩
    have hlt := helem.lt
    have hlt' := helem'.lt
    have hle := hrest.length_le
    unfold iterate Stateful.iterate commaTurn
    rw [bind_assoc]
    refine h.errorsSize ?_
    rw [bind_assoc]
    refine h.call helem rfl (by omega) fun x u hu => ?_
    rw [bind_assoc]
    refine hu.resync ?_
    rw [bind_assoc]
    refine hu.consume_hit hk (by decide) fun v hv => ?_
    rw [if_neg (by decide), bind_assoc]
    refine hv.check ?_
    rw [hopen, if_neg (by decide)]
    have hloop : Yields (iterate (commaTurn word (p n)) N (cs ++ [x])) _ v :=
      ih hv helem' (by omega) (by simpa using hN)
    refine hloop.mono fun ys w hw => ?_
    rw [List.append_assoc] at hw
    exact hw.behind

/-- A list between brackets. -/
theorem Gathered.parseCommaSeparated {f : List NodeIndex → ParserM α} {m : ParserM NodeIndex}
    (h : Gathered st lit s i names xs ts t) (hl : CommasOf st (Element st lit p e) i k ts')
    (hm : p n = m) (hclose : st.kindAt k = word) (hword : closesElement word = true)
    (hne : word ≠ .comma) (hn : 4 * (k - i) + e ≤ n) (hN : k - i < N)
    (hf : ∀ zs u, Gathered st lit s k names (xs ++ zs) (ts ++ ts') u → Yields (f (cs ++ zs)) Q u) :
    Yields (Parser.parseCommaSeparated N cs word m >>= f) Q t := by
  subst hm
  have hopen : ∀ w, closesElement w = false → decide (w = word) = false := by
    intro w hw
    refine decide_eq_false ?_
    rintro rfl
    rw [hw] at hword
    cases hword
  have hrest : Yields (Parser.parseCommaSeparated N cs word (p n))
      (GathersTo st lit s k names xs (ts ++ ts') cs) t := by
    unfold Parser.parseCommaSeparated
    refine h.check (h.atEof ?_)
    rcases hl.of_element hopen (decide_eq_true hclose) (by rwa [hclose]) with
      ⟨rfl, rfl⟩ | ⟨j, tr, ts', rfl, helem, hmore⟩
    · rw [hclose, decide_eq_true rfl, Bool.true_or, if_pos rfl]
      refine Yields.pure ?_
      rw [List.append_nil]
      exact h.none_to cs
    · have hlt := helem.lt
      have hle := hmore.length_le
      rw [hopen _ helem.starts, Bool.false_or, decide_eq_false ?_, if_neg Bool.false_ne_true]
      · exact h.comma_runs helem hmore hn (by omega)
      · intro hk
        have hstarts := helem.starts
        rw [hk] at hstarts
        cases hstarts
  refine hrest.bind ?_
  rintro _ u ⟨zs, rfl, hu⟩
  exact hf zs u hu

/-- A loop whose turns each read an element. -/
theorem Gathered.seq_runs {turn : List NodeIndex → ParserM (Turn (List NodeIndex) (List NodeIndex))}
    (h : Gathered st lit s j names xs ts t) (hs : SeqOf E j k ts')
    (hE : ∀ i j tr, E i j tr → i < j)
    (hgo : ∀ i' j' tr, E i' j' tr → j ≤ i' → j' ≤ k → ∀ cs xs ts t,
      Gathered st lit s i' names xs ts t → Yields (turn cs) (fun r u => ∃ x, r = .again (cs ++ [x]) ∧
        Gathered st lit s j' names (xs ++ [x]) (ts ++ [tr]) u) t)
    (hstop : ∀ cs xs ts t, Gathered st lit s k names xs ts t →
      Yields (turn cs) (fun r u => r = .done cs ∧ u = t) t)
    (hN : ts'.length < N) :
    Yields (iterate turn N cs) (GathersTo st lit s k names xs (ts ++ ts') cs) t := by
  induction hs generalizing t xs ts cs N with
  | nil =>
    obtain ⟨N, rfl⟩ := Nat.exists_eq_add_of_le' hN
    unfold iterate Stateful.iterate
    refine (hstop cs xs ts t h).bind ?_
    rintro _ _ ⟨rfl, rfl⟩
    refine Yields.pure ?_
    rw [List.append_nil]
    exact h.none_to cs
  | @cons i j k tr ts' helem hrest ih =>
    obtain ⟨N, rfl⟩ : ∃ N', N = N' + 1 := ⟨N - 1, by omega⟩
    have hlt := hE _ _ _ helem
    have hle := hrest.length_le hE
    unfold iterate Stateful.iterate
    refine (hgo i j tr helem le_rfl (by omega) cs xs ts t h).bind ?_
    rintro _ u ⟨x, rfl, hu⟩
    have hloop : Yields (iterate turn N (cs ++ [x])) _ u :=
      ih hu (fun i' j' tr h hi => hgo i' j' tr h (by omega)) hstop (by simpa using hN)
    refine hloop.mono fun ys w hw => ?_
    rw [List.append_assoc] at hw
    exact hw.behind

/-- Elements up to a closing token. -/
theorem Gathered.parseUntil {f : List NodeIndex → ParserM α} {m : ParserM NodeIndex}
    (h : Gathered st lit s j names xs ts t) (hs : SeqOf (Element st lit p e) j k ts') (hm : p n = m)
    (hclose : st.kindAt k = word) (hword : closesElement word = true) (hn : 4 * (k - j) + e ≤ n)
    (hN : k - j < N)
    (hf : ∀ zs u, Gathered st lit s k names (xs ++ zs) (ts ++ ts') u → Yields (f (cs ++ zs)) Q u) :
    Yields (Parser.parseUntil N cs word m >>= f) Q t := by
  subst hm
  have hlt : ∀ i j tr, Element st lit p e i j tr → i < j := fun _ _ _ h => h.lt
  have hle := hs.length_le hlt
  have hloop : Yields (iterate (untilTurn word (p n)) N cs)
      (GathersTo st lit s k names xs (ts ++ ts') cs) t := by
    refine h.seq_runs hs hlt (fun i' j' tr helem hi hj cs xs ts t ht => ?_)
      (fun cs xs ts t ht => ?_) (by omega)
    · have hstarts := helem.starts
      unfold untilTurn
      refine ht.check (ht.atEof ?_)
      rw [decide_eq_false ?_, decide_eq_false ?_, Bool.false_or, if_neg Bool.false_ne_true]
      · exact ht.call helem rfl (by omega) fun x u hu => Yields.pure ⟨x, rfl, hu⟩
      · rintro hk
        rw [hk] at hstarts
        cases hstarts
      · rintro hk
        rw [hk, hword] at hstarts
        cases hstarts
    · unfold untilTurn
      refine ht.check (ht.atEof ?_)
      rw [hclose, decide_eq_true rfl, Bool.true_or, if_pos rfl]
      exact Yields.pure ⟨rfl, rfl⟩
  refine hloop.bind ?_
  rintro _ u ⟨zs, rfl, hu⟩
  exact hf zs u hu

/-! ### Paths -/

theorem Gathered.segments_run (h : Gathered st lit s j names xs ts t) (hs : Segments st j k)
    (hend : st.kindAt k ≠ .colon_colon) (hn : k - j < n) (hN : k - j < N) (acc : Bool × Span) :
    Yields (iterate (segmentTurn n) N acc)
      (fun r u => r = (if k = j then acc else (true, ⟨acc.2.start, (st.tokenAt (k - 1)).tokenSpan.end⟩)) ∧
        Gathered st lit s k names xs ts u) t := by
  induction hs generalizing t N acc with
  | nil =>
    obtain ⟨N, rfl⟩ := Nat.exists_eq_add_of_le' hN
    unfold iterate Stateful.iterate segmentTurn
    rw [bind_assoc]
    refine h.check_miss hend ?_
    rw [if_neg Bool.false_ne_true]
    exact Yields.pure ⟨by rw [if_pos rfl], h⟩
  | @cons i k hsep hname hrest ih =>
    obtain ⟨N, rfl⟩ : ∃ N', N = N' + 1 := ⟨N - 1, by omega⟩
    obtain ⟨n, rfl⟩ : ∃ n', n = n' + 1 := ⟨n - 1, by omega⟩
    have hle := hrest.le
    unfold iterate Stateful.iterate segmentTurn
    rw [bind_assoc]
    refine h.check_hit hsep ?_
    rw [if_pos rfl, bind_assoc]
    refine h.advance hsep (by decide) fun u hu => ?_
    rw [bind_assoc]
    refine Yields.bind (R := fun _ v => v = u) ?_ ?_
    · unfold skipRedundantSeparators iterate Stateful.iterate redundantTurn
      rw [bind_assoc]
      refine hu.check_miss (by rw [hname]; decide) ?_
      rw [if_neg Bool.false_ne_true]
      exact Yields.pure rfl
    · rintro _ _ rfl
      rw [bind_assoc]
      refine hu.expect hname (by decide) fun v hv => ?_
      rw [bind_assoc]
      refine hv.previous (by rw [hname]; decide) ?_
      have hloop : Yields (iterate (segmentTurn (n + 1)) N
          (true, ⟨acc.2.start, (st.tokenAt (i + 1)).tokenSpan.end⟩)) _ v :=
        ih hv hend (by omega) (by omega) _
      refine hloop.mono ?_
      rintro _ w ⟨rfl, hw⟩
      refine ⟨?_, hw⟩
      rw [if_neg (show ¬ k = i by omega)]
      by_cases hk : k = i + 2
      · rw [if_pos hk, hk]
        rfl
      · rw [if_neg hk]

/-- The segments behind a first name; the span is widened to the last one. -/
theorem Gathered.parsePathSegments {f : Bool × Span → ParserM α}
    (h : Gathered st lit s (i + 1) names xs ts t) (hs : Segments st (i + 1) k)
    (hend : st.kindAt k ≠ .colon_colon) (hn : k - (i + 1) < n)
    (hf : ∀ u, Gathered st lit s k names xs ts u → Yields (f (decide (k ≠ i + 1),
      ⟨(st.tokenAt i).tokenSpan.start, (st.tokenAt (k - 1)).tokenSpan.end⟩)) Q u) :
    Yields (Parser.parsePathSegments n (st.tokenAt i).tokenSpan >>= f) Q t := by
  refine (h.segments_run hs hend hn hn _).bind ?_
  rintro _ u ⟨rfl, hu⟩
  by_cases hk : k = i + 1
  · subst hk
    simpa using hf u hu
  · simpa [hk] using hf u hu

/-! ### Docs, regimes, and flags -/

theorem Gathered.docs_run {kind : NodeKind} (h : Gathered st lit s j names xs ts t)
    (hd : Docs st word kind j k ts') (hkind : encodingOf kind = .name) (hword : word ≠ .eof)
    (hend : st.kindAt k ≠ word) (hN : k - j < N) :
    Yields (iterate (docTurn word kind) N cs)
      (fun ys u => ∃ zs names', ys = cs ++ zs ∧ Gathered st lit s k names' (xs ++ zs) (ts ++ ts') u) t := by
  induction hd generalizing t xs ts cs N names with
  | nil =>
    obtain ⟨N, rfl⟩ := Nat.exists_eq_add_of_le' hN
    unfold iterate Stateful.iterate docTurn
    rw [bind_assoc]
    refine h.check_miss hend ?_
    rw [if_neg Bool.false_ne_true]
    exact Yields.pure ⟨[], names, by simp, by simpa using h⟩
  | @cons i k ts' hk hrest ih =>
    have hle := hrest.le
    obtain ⟨N, rfl⟩ : ∃ N', N = N' + 1 := ⟨N - 1, by omega⟩
    unfold iterate Stateful.iterate docTurn
    rw [bind_assoc]
    refine h.check_hit hk ?_
    rw [if_pos rfl, bind_assoc]
    refine h.advance hk hword fun u hu => ?_
    rw [bind_assoc]
    refine hu.internText _ fun id v hv => ?_
    rw [bind_assoc]
    refine hv.leafThen (by rw [hkind]; exact .name hv.named) fun x w hw => ?_
    have hloop : Yields (iterate (docTurn word kind) N (cs ++ [x])) _ w :=
      ih hw hend (by omega)
    refine hloop.mono ?_
    rintro _ u' ⟨zs, names', rfl, hu'⟩
    exact ⟨x :: zs, names', by simp, by simpa [TokenStream.textAt] using hu'⟩

theorem Gathered.regime {r : Regime} {f : Regime → ParserM α} (h : Gathered st lit s j names xs ts t)
    (hm : Marks st j k r) (hname : st.kindAt k = .identifier)
    (hf : ∀ u, Gathered st lit s k names xs ts u → Yields (f r) Q u) :
    Yields (parseRegime >>= f) Q t := by
  unfold parseRegime
  rw [bind_assoc]
  refine h.peek ?_
  cases hm with
  | unmarked =>
    rw [hname]
    exact hf t h
  | isImm hk =>
    rw [hk]
    simp only [bind_assoc]
    exact h.advance hk (by decide) hf
  | isMut hk =>
    rw [hk]
    simp only [bind_assoc]
    exact h.advance hk (by decide) hf
  | isProj hk =>
    rw [hk]
    simp only [bind_assoc]
    exact h.advance hk (by decide) hf

end Eter.Parser
