import Eter.Placeholders
import Eter.Payloads
import Eter.PoolRecords
import Eter.ParserState

/-!
# Two parser runs side by side

The tokens of the right run are, from some place on, of the kinds and texts of the tokens of the
left run. Texts, interners, pools, and error lists may differ otherwise. `Alike` says that the two
runs have built the same so far, up to spans, identifiers, and the numbering of nodes.
-/

namespace Eter.Parser
open Stateful Diag

/-! ### The two sides -/

/-- The tokens and the text of a run, and what there is when it begins. -/
structure Side where
  tokens : List Token
  source : Bytes
  records : List NodeRecord
  errors : List PhaseDiagnostic
  slips : List Slip

/-- Past the last token there are end-of-file tokens. -/
def Side.tokenAt (x : Side) (i : ℕ) : Token := (TokenStream.fresh x.tokens [] x.source).peekToken i

theorem Side.tokenAt_of_getElem? {x : Side} {i : ℕ} {t : Token} (h : x.tokens[i]? = some t) :
    x.tokenAt i = t := by
  unfold Side.tokenAt TokenStream.peekToken TokenStream.fresh
  rw [Nat.zero_add, h]

/-- They are empty and stand at the end of the last token. -/
theorem Side.tokenAt_of_length_le {x : Side} {i : ℕ} (h : x.tokens.length ≤ i) :
    x.tokenAt i = ⟨.eof, ⟨x.tokens.getLast?.elim 0 fun t => t.tokenSpan.end,
      x.tokens.getLast?.elim 0 fun t => t.tokenSpan.end⟩⟩ := by
  unfold Side.tokenAt TokenStream.peekToken TokenStream.fresh TokenStream.endToken
  rw [Nat.zero_add, List.getElem?_eq_none h]
  cases x.tokens.getLast? <;> rfl

/-- From the start of a token to the end of another one. -/
def Side.hull (x : Side) (i j : ℕ) : Span :=
  ⟨(x.tokenAt i).tokenSpan.start, (x.tokenAt j).tokenSpan.end⟩

structure Twin where
  left : Side
  right : Side
  shift : ℕ
  length : right.tokens.length = left.tokens.length + shift
  kind : ∀ i, (right.tokenAt (i + shift)).tokenKind = (left.tokenAt i).tokenKind
  text : ∀ i, Eter.textOf right.source (right.tokenAt (i + shift)).tokenSpan =
    Eter.textOf left.source (left.tokenAt i).tokenSpan

/-- Identifiers that the two runs hold for the same text, or for slices over the same tokens. -/
structure NamePair where
  left : InternedStr
  right : InternedStr
  sliced : Bool

/-- What is known of the two runs besides what they have built: whether struct literals are
allowed, how many tokens are consumed at least, and which names are held. -/
structure Frame where
  lit : Bool
  past : ℕ
  names : List NamePair

def Frame.hold (f : Frame) (p : NamePair) : Frame := { f with names := p :: f.names }

def Frame.beyond (f : Frame) (k : ℕ) : Frame := { f with past := k }

def Frame.allow (f : Frame) (lit : Bool) : Frame := { f with lit := lit }

/-! ### Values that are alike -/

variable (w : Twin)

/-- Spans over the same tokens, and over one token unless they are sliced. -/
def SpanAlike (sliced : Bool) (a b : Span) : Prop :=
  ∃ i j, i ≤ j ∧ (sliced = false → i = j) ∧ a = w.left.hull i j ∧
    b = w.right.hull (i + w.shift) (j + w.shift)

def TokenAlike (t t' : Token) : Prop :=
  t'.tokenKind = t.tokenKind ∧ SpanAlike w false t.tokenSpan t'.tokenSpan

/-- Equal texts, or slices of the two sources over the same tokens. -/
def TextAlike (sliced : Bool) (x y : Bytes) : Prop :=
  x = y ∨ sliced = true ∧ ∃ i j, i ≤ j ∧ x = Eter.textOf w.left.source (w.left.hull i j) ∧
    y = Eter.textOf w.right.source (w.right.hull (i + w.shift) (j + w.shift))

/-- Identifiers for texts that are alike. -/
def NameAlike (a b : StringInterner) (p : NamePair) : Prop :=
  ∃ x y, a.get? p.left = some x ∧ b.get? p.right = some y ∧ TextAlike w p.sliced x y

/-- The nodes have the same number behind those the runs began with. -/
def NodeAlike (i j : NodeIndex) : Prop :=
  i = NullNode ∧ j = NullNode ∨
    ∃ k, i = some (w.left.records.length + k) ∧ j = some (w.right.records.length + k)

def PayloadAlike (a b : StringInterner) (kind : NodeKind) (p p' : ℕ) : Prop :=
  match encodingOf kind with
  | .packed => ∃ n n' r, p = NodePool.makePayload n r ∧ p' = NodePool.makePayload n' r ∧
      NameAlike w a b ⟨n, n', mayHavePath kind⟩
  | .name => p = NullStr ∧ p' = NullStr ∨ NameAlike w a b ⟨p, p', mayHavePath kind⟩
  | .packedNone => ∃ n n', p = NodePool.makePayload n .None ∧ p' = NodePool.makePayload n' .None ∧
      NameAlike w a b ⟨n, n', mayHavePath kind⟩
  | .operator => p' = p ∧ ∃ op : Token.Kind, p = NodePool.makeOpPayload op.value
  | .plain => p' = p

structure RecordAlike (a b : StringInterner) (r r' : NodeRecord) : Prop where
  kind : r'.kind = r.kind
  flags : r'.flags = r.flags
  kids : List.Forall₂ (NodeAlike w) r.kids r'.kids
  payload : PayloadAlike w a b r.kind r.payload r'.payload

/-- Counts of errors that grew by the same number. -/
def SizeAlike (m n : ℕ) : Prop := ∃ k, m = w.left.errors.length + k ∧ n = w.right.errors.length + k

def ErrorAlike (d d' : PhaseDiagnostic) : Prop := d'.localID = d.localID

/-- The diagnostics that lack an argument. -/
def lacking (errs : List PhaseDiagnostic) : ℕ :=
  errs.countP fun d => !fills (d.args.map Prod.fst) d.localID

/-! ### States that are alike -/

/-- Each diagnostic of the left run that lacks an argument is one of a bare `unsafe`. -/
structure Alike (f : Frame) (s t : PState) : Prop where
  leftTokens : s.stream.tokens = w.left.tokens
  leftSource : s.stream.source = w.left.source
  rightTokens : t.stream.tokens = w.right.tokens
  rightSource : t.stream.source = w.right.source
  cursor : t.stream.cursor = s.stream.cursor + w.shift
  past : f.past ≤ s.stream.cursor
  leftLit : s.structLitAllowed = f.lit
  rightLit : t.structLitAllowed = f.lit
  pools : ∃ rs rs', s.pool = poolOf (w.left.records ++ rs) ∧
    t.pool = poolOf (w.right.records ++ rs') ∧
    List.Forall₂ (RecordAlike w s.interner t.interner) rs rs'
  errors : ∃ es es', s.errors = w.left.errors ++ es ∧ t.errors = w.right.errors ++ es' ∧
    List.Forall₂ ErrorAlike es es' ∧
    s.slips.count .bareUnsafe = w.left.slips.count .bareUnsafe + lacking es
  names : ∀ p ∈ f.names, NameAlike w s.interner t.interner p

variable {w} {f f' : Frame} {s t : PState} {α α' β β' γ γ' : Type}

theorem Alike.weaken (h : Alike w f s t) (hlit : f'.lit = f.lit) (hpast : f'.past ≤ f.past)
    (hnames : ∀ p ∈ f'.names, p ∈ f.names) : Alike w f' s t :=
  { h with
    past := hpast.trans h.past
    leftLit := hlit ▸ h.leftLit
    rightLit := hlit ▸ h.rightLit
    names := fun p hp => h.names p (hnames p hp) }

theorem Alike.unhold {p : NamePair} (h : Alike w (f.hold p) s t) : Alike w f s t :=
  h.weaken rfl le_rfl fun _ hp => List.mem_cons_of_mem _ hp

theorem Alike.back {k : ℕ} (h : Alike w (f.beyond k) s t) (hk : f.past ≤ k) : Alike w f s t :=
  h.weaken rfl hk fun _ hp => hp

/-! ### Tokens of the two sides -/

theorem Side.peekToken_eq {x : Side} {st : TokenStream} (ht : st.tokens = x.tokens) (k : ℕ) :
    st.peekToken k = x.tokenAt (st.cursor + k) := by
  unfold Side.tokenAt TokenStream.peekToken TokenStream.endToken TokenStream.fresh
  simp [ht]

theorem Side.peek_eq {x : Side} {st : TokenStream} (ht : st.tokens = x.tokens) (k : ℕ) :
    st.peek k = (x.tokenAt (st.cursor + k)).tokenKind := by
  rw [← x.peekToken_eq ht]
  unfold TokenStream.peek TokenStream.peekToken TokenStream.endToken
  cases st.tokens[st.cursor + k]? <;> rfl

theorem SpanAlike.token (w : Twin) (i : ℕ) :
    SpanAlike w false (w.left.tokenAt i).tokenSpan (w.right.tokenAt (i + w.shift)).tokenSpan :=
  ⟨i, i, le_rfl, fun _ => rfl, rfl, rfl⟩

theorem TokenAlike.at (w : Twin) (i : ℕ) :
    TokenAlike w (w.left.tokenAt i) (w.right.tokenAt (i + w.shift)) :=
  ⟨w.kind i, SpanAlike.token w i⟩

/-- Spans over one token have one text. -/
theorem SpanAlike.text {sliced : Bool} {a b : Span} (h : SpanAlike w sliced a b) :
    TextAlike w sliced (Eter.textOf w.left.source a) (Eter.textOf w.right.source b) := by
  obtain ⟨i, j, hij, hone, rfl, rfl⟩ := h
  cases sliced with
  | true => exact Or.inr ⟨rfl, i, j, hij, rfl, rfl⟩
  | false =>
    obtain rfl := hone rfl
    exact Or.inl (w.text i).symm

theorem TextAlike.eq {x y : Bytes} (h : TextAlike w false x y) : x = y :=
  h.resolve_right (by simp)

/-! ### Interners -/

theorem NameAlike.intern {a b : StringInterner} {p : NamePair} (h : NameAlike w a b p)
    (x y : Bytes) : NameAlike w (a.intern x).2 (b.intern y).2 p := by
  obtain ⟨x', y', hx, hy, halike⟩ := h
  exact ⟨x', y', StringInterner.get?_intern_of_get? hx x, StringInterner.get?_intern_of_get? hy y,
    halike⟩

theorem NameAlike.interned {sliced : Bool} {x y : Bytes} (h : TextAlike w sliced x y)
    (a b : StringInterner) :
    NameAlike w (a.intern x).2 (b.intern y).2 ⟨(a.intern x).1, (b.intern y).1, sliced⟩ :=
  ⟨x, y, StringInterner.get?_intern a x, StringInterner.get?_intern b y, h⟩

theorem NameAlike.widen {a b : StringInterner} {n n' : InternedStr} {sliced sliced' : Bool}
    (h : NameAlike w a b ⟨n, n', sliced⟩) (hs : sliced = true → sliced' = true) :
    NameAlike w a b ⟨n, n', sliced'⟩ := by
  obtain ⟨x, y, hx, hy, htext⟩ := h
  refine ⟨x, y, hx, hy, ?_⟩
  rcases htext with heq | ⟨hsl, hslice⟩
  · exact Or.inl heq
  · exact Or.inr ⟨hs hsl, hslice⟩

theorem RecordAlike.intern {a b : StringInterner} {r r' : NodeRecord}
    (h : RecordAlike w a b r r') (x y : Bytes) :
    RecordAlike w (a.intern x).2 (b.intern y).2 r r' := by
  refine ⟨h.kind, h.flags, h.kids, ?_⟩
  have hp := h.payload
  unfold PayloadAlike at hp ⊢
  cases henc : encodingOf r.kind with
  | packed =>
    rw [henc] at hp
    obtain ⟨n, n', reg, hn, hn', hname⟩ := hp
    exact ⟨n, n', reg, hn, hn', hname.intern x y⟩
  | name =>
    rw [henc] at hp
    exact hp.imp id fun hname => hname.intern x y
  | packedNone =>
    rw [henc] at hp
    obtain ⟨n, n', hn, hn', hname⟩ := hp
    exact ⟨n, n', hn, hn', hname.intern x y⟩
  | operator =>
    rw [henc] at hp
    exact hp
  | plain =>
    rw [henc] at hp
    exact hp

theorem Alike.intern (h : Alike w f s t) {sliced : Bool} {x y : Bytes}
    (htext : TextAlike w sliced x y) :
    Alike w (f.hold ⟨(s.interner.intern x).1, (t.interner.intern y).1, sliced⟩)
      { s with interner := (s.interner.intern x).2 }
      { t with interner := (t.interner.intern y).2 } := by
  obtain ⟨rs, rs', hp, hp', hrs⟩ := h.pools
  refine ⟨h.leftTokens, h.leftSource, h.rightTokens, h.rightSource, h.cursor, h.past, h.leftLit,
    h.rightLit, ⟨rs, rs', hp, hp', hrs.imp fun _ _ hr => hr.intern x y⟩, h.errors, ?_⟩
  intro p hmem
  rcases List.mem_cons.mp hmem with rfl | hmem
  · exact NameAlike.interned htext _ _
  · exact (h.names p hmem).intern x y

end Eter.Parser
