import Eter.ElementLists

/-!
# Tensor literals

A tensor literal stores its values and its dimensions in one list of children and the number of its
values in the payload, both counted in 16 bits.
-/

namespace Eter.Parser
open Stateful

variable {s t u v w : PState} {n d i e e' : ℕ} {is js : List ℕ} {x : NodeIndex} {b b' : Bool}

/-- The tokens behind which a list of values goes no further. -/
def closesValues (k : Token.Kind) : Bool := k = .semi || k = .r_square

/-- At the cursor stands `tensor [ values ; dimensions ]`, each element free of errors: the values
start at the tokens `is` and end before `;` at token `e`, the dimensions start at the tokens `js` and
end before `]` at token `e'`. -/
structure TensorLiteral (s : PState) (is js : List ℕ) (e e' : ℕ) (b b' : Bool) : Prop where
  keyword : s.kindAt s.stream.cursor = .kw_tensor
  opening : s.kindAt (s.stream.cursor + 1) = .l_square
  first : is.head? = some (s.stream.cursor + 2)
  values : CleanList (s.allow true) (.expr 0) closesValues is e b
  semi : s.kindAt e = .semi
  firstDim : js.head? = some (e + 1)
  dims : CleanList s (.expr 0) (· = .r_square) js e' b'
  closing : s.kindAt e' = .r_square

/-- The nodes of the values and of the dimensions, as the parser comes by them. -/
def TensorElements (n : ℕ) (s : PState) (is js : List ℕ) (b : Bool) (xs ys : List NodeIndex) :
    Prop :=
  ∃ v w, Sequence (run n (.expr 0)) ((s.at (s.stream.cursor + 2)).allow true) is xs v ∧
    Sequence (run n (.expr 0)) ((v.past b).allow s.structLitAllowed).moved js ys w

/-- The literal is one node without errors, from which the nodes of its values and of its dimensions
are recovered. -/
def RecoversSplit (n : ℕ) (s : PState) (is js : List ℕ) (b : Bool) (x : NodeIndex) (t : PState) :
    Prop :=
  t.errors = s.errors ∧ ∃ data xs ys,
    t.pool.get? x = some data ∧ data.kind = .TensorLitExpr ∧ TensorElements n s is js b xs ys ∧
    (t.pool.childrenOf x).take (NodePool.payloadOp data.payload) = xs ∧
    (t.pool.childrenOf x).drop (NodePool.payloadOp data.payload) = ys

theorem requireDim_runs (c : Bool) : Yields (requireDim c) (fun _ t => t.stream = s.stream ∧
    t.pool = s.pool ∧ (t.errors = s.errors ↔ c = false)) s := by
  cases c with
  | false => exact ⟨_, _, rfl, rfl, rfl, by simp⟩
  | true => exact ⟨_, _, rfl, rfl, rfl, by simp⟩

theorem parseTensorValues_runs (hs : s.Valid) (hsh : t.Shares (s.allow true))
    (hi : s.stream.cursor = i)
    (h : CommaList t (ReadsWith d t fun n => run n (.expr 0)) closesValues (i :: is) e b) (hn : d ≤ n)
    (hlen : is.length + 1 ≤ n) :
    Yields (parseTensorValues n (run n)) (fun xs w => ∃ v,
      Sequence (run n (.expr 0)) (s.allow true) (i :: is) xs v ∧ s.Extends w ∧
        w = (v.past b).allow s.structLitAllowed ∧ w.stream.cursor = e ∧ w.errors = s.errors) s := by
  obtain ⟨hp, htail⟩ := h
  unfold parseTensorValues
  refine Yields.withStructLit ?_
  refine (hp n hn _ (hs.allow true) hsh hi).bind ?_
  rintro x u ⟨hrun, hext, -, hj, herr⟩
  refine (parseMore_runs hn htail hext.valid (hsh.trans hext.shares) hj hlen).mono ?_
  rintro ys w ⟨xs, v, rfl, hafter, hran⟩
  have hext' := hext.trans hran.ext
  refine ⟨v, ?_, ⟨hext'.valid.allow _, hext'.tokens, hext'.source, rfl, hext'.forward⟩, ?_,
    hran.cursor, hran.errors.trans herr⟩
  · rw [← hi]
    exact .mk hrun hafter
  · rw [hran.last]

theorem parsePrefixExpr_tensor {Q : NodeIndex → PState → Prop} {rec : Rec}
    (hk : s.stream.peek 0 = .kw_tensor) (h : Yields (parseTensorLitExpr n rec) Q s) :
    Yields (parsePrefixExpr n rec) Q s := by
  unfold parsePrefixExpr
  refine Yields.read rfl ?_
  rw [peekToken_kind, hk]
  exact h

/-- The node was given the nodes of all elements, and there is an error exactly when the number of
dimensions is lost. -/
structure ParsedTensor (s : PState) (xs ys : List NodeIndex) (x : NodeIndex) (t : PState) : Prop where
  node : t.Node x .TensorLitExpr (xs ++ ys) (NodePool.makeOpPayload (xs.length % 2 ^ 16))
  errors : t.errors = s.errors ↔ (xs ++ ys).length % 2 ^ 16 ≠ xs.length % 2 ^ 16

theorem tensor_runs (hs : s.Valid) (h : TensorLiteral s is js e e' b b') : ∃ d, ∀ n ≥ d,
    Yields (parsePrefixExpr n (run n)) (fun x t => ∃ xs ys, TensorElements n s is js b xs ys ∧
      ParsedTensor s xs ys x t) s := by
  obtain ⟨i, is, rfl⟩ : ∃ i is', is = i :: is' := by
    obtain ⟨-, -⟩ := h.values
    exact ⟨_, _, rfl⟩
  obtain ⟨j, js, rfl⟩ : ∃ j js', js = j :: js' := by
    obtain ⟨-, -⟩ := h.dims
    exact ⟨_, _, rfl⟩
  obtain ⟨d, hd⟩ := h.values.reads (hs.allow true) (fun _ _ => Clean.expr_starts) fun _ => le_rfl
  obtain ⟨d', hd'⟩ := h.dims.reads hs (fun _ _ => Clean.expr_starts) fun _ => le_rfl
  obtain ⟨l, hl⟩ := h.dims.head
  have hi : s.stream.cursor + 2 = i := by simpa using h.first.symm
  have hj : e + 1 = j := by simpa using h.firstDim.symm
  refine ⟨max (max d d') (max (is.length + 1) (js.length + 1)), fun n hn => ?_⟩
  have hext₁ := hs.extends_moved h.keyword (by decide)
  have hext₂ := hext₁.trans (hext₁.valid.extends_moved h.opening (by decide))
  have hsh₂ : s.Shares s.moved.moved := hext₂.shares
  refine parsePrefixExpr_tensor h.keyword ?_
  unfold parseTensorLitExpr
  refine (advance_of_peek (by rw [show s.stream.peek 0 = _ from h.keyword]; decide)).bind ?_
  rintro start _ rfl
  refine (expect_hit h.opening (by decide)).bind ?_
  rintro _ _ ⟨-, rfl⟩
  refine (parseTensorValues_runs hext₂.valid (hsh₂.allow true) hi hd (by omega) (by omega)).bind ?_
  rintro xs w ⟨v, hxs, hext₃, hw, he, herr⟩
  have hext := hext₂.trans hext₃
  have hsemi : w.stream.peek 0 = .semi := (PState.peek_of_shares hext.shares he).trans h.semi
  refine (expect_hit hsemi (by decide)).bind ?_
  rintro _ _ ⟨-, rfl⟩
  have hext₄ := hext.trans (hext.valid.extends_moved hsemi (by decide))
  have hopen := hl.expr_starts
  have hcur : w.moved.stream.cursor = j := by
    rw [← hj, ← he]
    rfl
  have hne : s.kindAt j ≠ .r_square ∧ s.kindAt j ≠ .eof := by
    constructor <;> intro hk <;> rw [hk] at hopen <;> cases hopen
  refine (parseCommaSeparated_runs (by omega) hd' hext₄.valid hext₄.shares hcur hne.1 hne.2
    (by omega)).bind ?_
  rintro _ w' ⟨ys, v', rfl, hys, hran⟩
  have hext₅ := hext₄.trans hran.ext
  refine (requireDim_runs _).bind ?_
  rintro _ t ⟨hstream, hpool, herrt⟩
  have hclose : t.stream.peek 0 = .r_square := by
    rw [hstream]
    exact (PState.peek_of_shares hext₅.shares hran.cursor).trans h.closing
  refine (expect_hit hclose (by decide)).bind ?_
  rintro _ _ ⟨-, rfl⟩
  obtain ⟨rs, -, hrs, -⟩ := hext₅.valid.tree
  refine (alloc_node (s := t.moved) (hpool.trans hrs)).mono ?_
  rintro x t' ⟨-, herr', -, hnode⟩
  refine ⟨xs, ys, ⟨v, v', hxs, ?_⟩, hnode, ?_⟩
  · rw [hw] at hys
    exact hys
  · have herrs : w'.errors = s.errors := hran.errors.trans herr
    rw [herr', ← herrs]
    exact herrt.trans (by simp)

theorem recoversSplit_iff {xs ys : List NodeIndex} (h : TensorElements n s is js b xs ys)
    (ht : ParsedTensor s xs ys x t) (hlen : 1 ≤ js.length) :
    RecoversSplit n s is js b x t ↔ is.length + js.length ≤ 65535 := by
  obtain ⟨v, w, hxs, hys⟩ := id h
  obtain ⟨data, hdata, hkind, hpayload⟩ := ht.node.data
  have hop : NodePool.payloadOp data.payload = xs.length % 2 ^ 16 := by
    rw [hpayload]
    exact Nat.mod_mod _ _
  constructor
  · rintro ⟨-, data', xs', ys', hdata', -, ⟨v', w', hxs', hys'⟩, htake, hdrop⟩
    have hall : t.pool.childrenOf x = xs' ++ ys' := by
      rw [← htake, ← hdrop, List.take_append_drop]
    have hcount := congrArg List.length hall
    rw [ht.node.children, List.length_take, List.length_append, List.length_append, hxs'.length,
      hys'.length, hxs.length, hys.length] at hcount
    have hmod := Nat.mod_lt (is.length + js.length) (show 0 < 2 ^ 16 by norm_num)
    omega
  · intro hle
    have hfew : (xs ++ ys).length < 2 ^ 16 := by
      rw [List.length_append, hxs.length, hys.length]
      omega
    have hvalues : xs.length % 2 ^ 16 = xs.length := Nat.mod_eq_of_lt (by
      rw [List.length_append] at hfew
      omega)
    have hchildren : t.pool.childrenOf x = xs ++ ys := (ht.node.made hfew).2
    refine ⟨ht.errors.mpr ?_, data, xs, ys, hdata, hkind, h, ?_, ?_⟩
    · rw [Nat.mod_eq_of_lt hfew, hvalues, List.length_append, hys.length]
      omega
    · rw [hchildren, hop, hvalues, List.take_left]
    · rw [hchildren, hop, hvalues, List.drop_left]

theorem tensor_split_iff (hs : s.Valid) (h : TensorLiteral s is js e e' b b') : ∃ d, ∀ n ≥ d,
    Yields (parsePrefixExpr n (run n))
      (fun x t => RecoversSplit n s is js b x t ↔ is.length + js.length ≤ 65535) s := by
  obtain ⟨d, hd⟩ := tensor_runs hs h
  refine ⟨d, fun n hn => (hd n hn).mono ?_⟩
  rintro x t ⟨xs, ys, helements, ht⟩
  exact recoversSplit_iff helements ht h.dims.length_pos

/-! ### Lists of names -/

/-- The state at the beginning of `len` tokens, one byte a token. -/
def rowOf (len : ℕ) (kind : ℕ → Token.Kind) : PState :=
  initialState (.fresh ((List.range len).map fun i => byteToken (kind i) i) [] []) .new

theorem rowOf_valid (len : ℕ) (kind : ℕ → Token.Kind) : (rowOf len kind).Valid := .initial _ _ _ _

theorem rowOf_kindAt {len i : ℕ} {kind : ℕ → Token.Kind} (h : i < len) :
    (rowOf len kind).kindAt i = kind i := by
  unfold PState.kindAt rowOf TokenStream.peek PState.at initialState
  simp [TokenStream.fresh, h, byteToken]

theorem rowOf_length (len : ℕ) (kind : ℕ → Token.Kind) :
    (rowOf len kind).stream.tokens.length = len := by
  simp [rowOf, initialState, TokenStream.fresh]

/-- Names behind commas, up to a token that is no comma. -/
theorem names_tail {close : Token.Kind → Bool} {m : ℕ} (hopen : close .identifier = false)
    (hnames : ∀ l < m, s.kindAt (i + 2 * l) = .comma ∧ s.kindAt (i + 2 * l + 1) = .identifier)
    (hstop : s.kindAt (i + 2 * m) = .semi) :
    ∃ is, is.length = m ∧ Tail s (Clean s (.expr 0)) close i is (i + 2 * m) false := by
  induction m generalizing i with
  | zero => exact ⟨[], rfl, .stop (by rw [show i = i + 2 * 0 from rfl, hstop]; decide)⟩
  | succ m ih =>
    obtain ⟨hcomma, hname⟩ := hnames 0 (Nat.succ_pos m)
    have hnext : ∀ l, i + 1 + 1 + 2 * l = i + 2 * (l + 1) := fun l => by ring
    obtain ⟨is, hlen, htail⟩ := ih (i := i + 1 + 1)
      (fun l hl => by rw [hnext]; exact hnames (l + 1) (by omega)) (by rw [hnext]; exact hstop)
    have hbehind : isSync (s.kindAt (i + 1 + 1)) = true := by
      rcases Nat.eq_zero_or_pos m with rfl | hm
      · rw [show s.kindAt (i + 1 + 1) = .semi from hstop]
        rfl
      · rw [show s.kindAt (i + 1 + 1) = .comma from (hnames 1 (by omega)).1]
        rfl
    refine ⟨(i + 1) :: is, by simp [hlen], ?_⟩
    rw [← hnext]
    refine .more hcomma ?_ (name_clean hname hbehind le_rfl) htail
    rw [show s.kindAt (i + 1) = .identifier from hname]
    exact hopen

/-- The kinds of the tokens of `tensor[a,a,…,a;a]` with `m + 1` values. -/
def longTensorKind (m i : ℕ) : Token.Kind :=
  if i = 0 then .kw_tensor
  else if i = 1 then .l_square
  else if i ≤ 2 * m + 2 then if i % 2 = 0 then .identifier else .comma
  else if i = 2 * m + 3 then .semi
  else if i = 2 * m + 4 then .identifier
  else .r_square

def longTensor (m : ℕ) : PState := rowOf (2 * m + 6) (longTensorKind m)

theorem longTensorKind_name {m l : ℕ} (hl : l ≤ m) : longTensorKind m (2 * l + 2) = .identifier := by
  unfold longTensorKind
  rw [if_neg (by omega), if_neg (by omega), if_pos (by omega), if_pos (by omega)]

theorem longTensorKind_comma {m l : ℕ} (hl : l < m) : longTensorKind m (2 * l + 3) = .comma := by
  unfold longTensorKind
  rw [if_neg (by omega), if_neg (by omega), if_pos (by omega), if_neg (by omega)]

theorem longTensorKind_end (m : ℕ) : longTensorKind m (2 * m + 3) = .semi ∧
    longTensorKind m (2 * m + 4) = .identifier ∧ longTensorKind m (2 * m + 5) = .r_square := by
  unfold longTensorKind
  refine ⟨?_, ?_, ?_⟩
  · rw [if_neg (by omega), if_neg (by omega), if_neg (by omega), if_pos (by omega)]
  · rw [if_neg (by omega), if_neg (by omega), if_neg (by omega), if_neg (by omega),
      if_pos (by omega)]
  · rw [if_neg (by omega), if_neg (by omega), if_neg (by omega), if_neg (by omega),
      if_neg (by omega)]

theorem longTensor_literal (m : ℕ) : ∃ is js, is.length = m + 1 ∧ js.length = 1 ∧
    TensorLiteral (longTensor m) is js (2 * m + 3) (2 * m + 5) false false := by
  have hkind : ∀ i < 2 * m + 6, (longTensor m).kindAt i = longTensorKind m i :=
    fun i hi => rowOf_kindAt hi
  obtain ⟨hsemi, hdim, hclose⟩ := longTensorKind_end m
  have hnames : ∀ l < m, (longTensor m).kindAt (3 + 2 * l) = .comma ∧
      (longTensor m).kindAt (3 + 2 * l + 1) = .identifier := by
    intro l hl
    rw [hkind _ (by omega), hkind _ (by omega)]
    have hcomma := longTensorKind_comma hl
    have hname := longTensorKind_name (m := m) (l := l + 1) hl
    rw [show 2 * l + 3 = 3 + 2 * l by ring] at hcomma
    rw [show 2 * (l + 1) + 2 = 3 + 2 * l + 1 by ring] at hname
    exact ⟨hcomma, hname⟩
  have hstop : (longTensor m).kindAt (3 + 2 * m) = .semi := by
    rw [hkind _ (by omega), Nat.add_comm]
    exact hsemi
  obtain ⟨is, hlen, htail⟩ := @names_tail ((longTensor m).allow true) _ closesValues m rfl hnames hstop
  have hvalue : Clean ((longTensor m).allow true) (.expr 0) 2 3 := by
    refine name_clean ?_ ?_ le_rfl
    · exact (hkind 2 (by omega)).trans (longTensorKind_name (l := 0) (Nat.zero_le m))
    · show isSync ((longTensor m).kindAt 3) = true
      rcases Nat.eq_zero_or_pos m with rfl | hm
      · rw [show (longTensor 0).kindAt 3 = .semi from hstop]
        rfl
      · rw [show (longTensor m).kindAt 3 = .comma from (hnames 0 hm).1]
        rfl
  have hnext : (longTensor m).kindAt (2 * m + 4 + 1) = .r_square := (hkind _ (by omega)).trans hclose
  have hsize : Clean (longTensor m) (.expr 0) (2 * m + 4) (2 * m + 5) :=
    name_clean ((hkind _ (by omega)).trans hdim) (by rw [hnext]; rfl) le_rfl
  refine ⟨2 :: is, [2 * m + 4], by simp [hlen], rfl, ?_⟩
  rw [show 2 * m + 3 = 3 + 2 * m by ring]
  constructor
  · exact (hkind 0 (by omega)).trans rfl
  · exact (hkind 1 (by omega)).trans rfl
  · rfl
  · exact .mk hvalue htail
  · exact hstop
  · simp
    omega
  · exact .mk hsize (.stop (by rw [hnext]; decide))
  · exact hnext

/-- `tensor[a,a,a;a]`. -/
theorem tensor_split_iff_three : ∃ is js, is.length = 3 ∧ js.length = 1 ∧ ∃ d, ∀ n ≥ d,
    Yields (parsePrefixExpr n (run n)) (fun x t => RecoversSplit n (longTensor 2) is js false x t ↔
      is.length + js.length ≤ 65535) (longTensor 2) := by
  obtain ⟨is, js, his, hjs, h⟩ := longTensor_literal 2
  exact ⟨is, js, his, hjs, tensor_split_iff (rowOf_valid _ _) h⟩

/-- With 65535 values and one dimension no child is left, and the values are the dimensions. -/
theorem tensor_split_lost : ¬ ∀ s is js e e' b b', s.Valid → TensorLiteral s is js e e' b b' →
    ∃ d, ∀ n ≥ d, Yields (parsePrefixExpr n (run n)) (fun x t => RecoversSplit n s is js b x t) s := by
  intro hclaim
  obtain ⟨is, js, his, hjs, h⟩ := longTensor_literal 65534
  have hvalid : (longTensor 65534).Valid := rowOf_valid _ _
  obtain ⟨d, hd⟩ := hclaim _ _ _ _ _ _ _ hvalid h
  obtain ⟨d', hd'⟩ := tensor_runs hvalid h
  obtain ⟨x, t, -, hsplit, xs, ys, helements, ht⟩ :=
    (hd (max d d') (le_max_left _ _)).and (hd' (max d d') (le_max_right _ _))
  have hle := (recoversSplit_iff helements ht h.dims.length_pos).mp hsplit
  omega

end Eter.Parser
