import Eter.Expressions

/-!
# The grammar

Which stretches of tokens are phrases that the parser accepts, and the trees it gives them. Where a
shorter phrase could end before a token that the parser goes on with, a rule looks at that token.
Struct literals are allowed or not, as in the header of an `if`.

The rules are not the documentation's throughout. No `;` may stand behind an `if`, `while`, `for`,
block, or `unsafe` statement, and one must stand behind a `match`. A `ret` has a value. An assignment
through a projection binds as tightly as an operand, and other assignments may be chained. A float
literal behind a dot whose fraction has other characters than digits is one index. The values and the
dimensions of a tensor are counted modulo `2 ^ 16`.
-/

namespace Eter

namespace TokenStream

def kindAt (st : TokenStream) (i : ℕ) : Token.Kind := { st with cursor := i }.peek 0

def tokenAt (st : TokenStream) (i : ℕ) : Token := { st with cursor := i }.peekToken 0

def textAt (st : TokenStream) (i : ℕ) : Bytes := st.textOf (st.tokenAt i).tokenSpan

/-- The text from token `i` to the end of the token before `j`. -/
def textFrom (st : TokenStream) (i j : ℕ) : Bytes :=
  st.textOf ⟨(st.tokenAt i).tokenSpan.start, (st.tokenAt (j - 1)).tokenSpan.end⟩

/-- Behind the value of a match arm a separator is optional. -/
def armEnd (st : TokenStream) (k : ℕ) : ℕ :=
  if st.kindAt k = .comma ∨ st.kindAt k = .semi then k + 1 else k

end TokenStream

namespace Parser
open NodePool

/-! ### Stretches without recursion -/

/-- `(:: name)*` -/
inductive Segments (st : TokenStream) : ℕ → ℕ → Prop where
  | nil {i : ℕ} : Segments st i i
  | cons {i j : ℕ} (hsep : st.kindAt i = .colon_colon) (hname : st.kindAt (i + 1) = .identifier)
      (hrest : Segments st (i + 2) j) : Segments st i j

/-- An optional regime. -/
inductive Marks (st : TokenStream) : ℕ → ℕ → Regime → Prop where
  | unmarked {i : ℕ} : Marks st i i .None
  | isImm {i : ℕ} (h : st.kindAt i = .kw_imm) : Marks st i (i + 1) .Imm
  | isMut {i : ℕ} (h : st.kindAt i = .kw_mut) : Marks st i (i + 1) .Mut
  | isProj {i : ℕ} (h : st.kindAt i = .kw_proj) : Marks st i (i + 1) .Proj

/-- An optional keyword that sets a flag. -/
inductive Flagged (st : TokenStream) (keyword : Token.Kind) (flag : ℕ) : ℕ → ℕ → ℕ → Prop where
  | absent {i : ℕ} : Flagged st keyword flag i i 0
  | present {i : ℕ} (h : st.kindAt i = keyword) : Flagged st keyword flag i (i + 1) flag

/-- Doc comments. -/
inductive Docs (st : TokenStream) (k : Token.Kind) (kind : NodeKind) :
    ℕ → ℕ → List SyntaxTree → Prop where
  | nil {i : ℕ} : Docs st k kind i i []
  | cons {i j : ℕ} {ts : List SyntaxTree} (h : st.kindAt i = k) (hrest : Docs st k kind (i + 1) j ts) :
      Docs st k kind i j (.node kind 0 (some (st.textAt i)) 0 [] :: ts)

/-- A float literal behind a dot is two indices, unless digits do not follow its dot. -/
def floatIndexTree (base : SyntaxTree) (intPart fracPart : Bytes) : SyntaxTree :=
  if fracPart ≠ [] ∧ allDigits fracPart = true then
    .node .TupleIndexExpr 0 (some fracPart) 0 [.node .TupleIndexExpr 0 (some intPart) 0 [base]]
  else .node .TupleIndexExpr 0 (some intPart) 0 [base]

/-! ### Phrases -/

/-- The kinds of phrases. An expression has the precedence of its operator; `after` is optional, and
`fn` and `decl` are what follows docs and flags. -/
inductive Phrase where
  | type | pat | fieldPat
  | expr (p : ℕ) | full | fieldInit | args
  | block | ifExpr | branch | whileStmt | matchExpr | arm | unsafeBlock | stmt
  | genericParam | generics | param | params | structField | variant
  | body (expectBody : Bool)
  | fn (docs : List SyntaxTree) (flags : ℕ) (expectBody : Bool)
  | method (expectBody : Bool)
  | decl (docs : List SyntaxTree) (flags : ℕ)
  | item | file
  | after (k : Token.Kind) (ph : Phrase)
  | commas (ph : Phrase)
  | list (ph : Phrase)
  | seq (ph : Phrase)

/-- Tokens `i` to `j` are the phrase as the parser reads it, and the trees are those it builds. -/
inductive Derives (st : TokenStream) : Bool → Phrase → ℕ → ℕ → List SyntaxTree → Prop where
  -- Types
  | namedType {lit : Bool} {i j : ℕ}
      (hname : st.kindAt i = .identifier ∨ st.kindAt i = .kw_Self) (hpath : Segments st (i + 1) j)
      (hend : st.kindAt j ≠ .colon_colon) :
      Derives st lit .type i j [.node .NamedType 0 (some (st.textFrom i j)) 0 []]
  | arrayType {lit : Bool} {i j k : ℕ} {elem size : SyntaxTree} (hopen : st.kindAt i = .l_square)
      (helem : Derives st lit .type (i + 1) j [elem]) (hsemi : st.kindAt j = .semi)
      (hsize : Derives st lit .full (j + 1) k [size]) (hclose : st.kindAt k = .r_square) :
      Derives st lit .type i (k + 1) [.node .ArrayType 0 none 0 [elem, size]]
  | tensorType {lit : Bool} {i j k : ℕ} {elem : SyntaxTree} {dims : List SyntaxTree}
      (hword : st.kindAt i = .kw_tensor) (hopen : st.kindAt (i + 1) = .l_square)
      (helem : Derives st lit .type (i + 2) j [elem]) (hsemi : st.kindAt j = .semi)
      (hdims : Derives st lit (.commas .full) (j + 1) k dims) (hsome : dims ≠ [])
      (hclose : st.kindAt k = .r_square) :
      Derives st lit .type i (k + 1) [.node .TensorType 0 none 0 (elem :: dims)]
  | tupleType {lit : Bool} {i j : ℕ} {ts : List SyntaxTree} (hopen : st.kindAt i = .l_paren)
      (helems : Derives st lit (.commas .type) (i + 1) j ts) (hclose : st.kindAt j = .r_paren) :
      Derives st lit .type i (j + 1) [.node .TupleType 0 none 0 ts]
  -- Patterns
  | wildcardPat {lit : Bool} {i : ℕ} (hname : st.kindAt i = .identifier)
      (htext : st.textAt i = ascii "_") :
      Derives st lit .pat i (i + 1) [.node .WildcardPat 0 none 0 []]
  | namePat {lit : Bool} {i j : ℕ} (hname : st.kindAt i = .identifier)
      (htext : st.textAt i ≠ ascii "_") (hpath : Segments st (i + 1) j)
      (hend : st.kindAt j ≠ .colon_colon ∧ st.kindAt j ≠ .l_paren ∧ st.kindAt j ≠ .l_brace) :
      Derives st lit .pat i j [.node .IdentPat 0 (some (st.textFrom i j)) Regime.None.value []]
  | variantPat {lit : Bool} {i j k : ℕ} {ts : List SyntaxTree} (hname : st.kindAt i = .identifier)
      (htext : st.textAt i ≠ ascii "_") (hpath : Segments st (i + 1) j)
      (hopen : st.kindAt j = .l_paren) (helems : Derives st lit (.commas .pat) (j + 1) k ts)
      (hclose : st.kindAt k = .r_paren) :
      Derives st lit .pat i (k + 1) [.node .TuplePat 0 (some (st.textFrom i j)) 0 ts]
  | structPat {lit : Bool} {i j k : ℕ} {ts : List SyntaxTree} (hname : st.kindAt i = .identifier)
      (htext : st.textAt i ≠ ascii "_") (hpath : Segments st (i + 1) j)
      (hopen : st.kindAt j = .l_brace) (hfields : Derives st lit (.commas .fieldPat) (j + 1) k ts)
      (hclose : st.kindAt k = .r_brace) :
      Derives st lit .pat i (k + 1) [.node .StructPat 0 (some (st.textFrom i j)) 0 ts]
  | tuplePat {lit : Bool} {i j : ℕ} {ts : List SyntaxTree} (hopen : st.kindAt i = .l_paren)
      (helems : Derives st lit (.commas .pat) (i + 1) j ts) (hclose : st.kindAt j = .r_paren) :
      Derives st lit .pat i (j + 1) [.node .TuplePat 0 none 0 ts]
  | literalPat {lit : Bool} {i : ℕ} (hlit : isLiteral (st.kindAt i) = true) :
      Derives st lit .pat i (i + 1) [.node .LiteralPat 0 (some (st.textAt i)) 0 []]
  | fieldPat {lit : Bool} {i : ℕ} (hname : st.kindAt i = .identifier)
      (hend : st.kindAt (i + 1) ≠ .colon) :
      Derives st lit .fieldPat i (i + 1) [.node .FieldPat 0 (some (st.textAt i)) 0 []]
  | boundFieldPat {lit : Bool} {i j : ℕ} {p : SyntaxTree} (hname : st.kindAt i = .identifier)
      (hcolon : st.kindAt (i + 1) = .colon) (hpat : Derives st lit .pat (i + 2) j [p]) :
      Derives st lit .fieldPat i j [.node .FieldPat 0 (some (st.textAt i)) 0 [p]]
  -- Operands
  | literal {lit : Bool} {i : ℕ} (hlit : isLiteral (st.kindAt i) = true) :
      Derives st lit (.expr 120) i (i + 1) [.node .LitExpr 0 (some (st.textAt i)) 0 []]
  | name {lit : Bool} {i j : ℕ} (hname : st.kindAt i = .identifier) (hpath : Segments st (i + 1) j)
      (hend : st.kindAt j ≠ .colon_colon) (hbrace : lit = true → st.kindAt j ≠ .l_brace) :
      Derives st lit (.expr 120) i j
        [.node (if j = i + 1 then .IdentExpr else .PathExpr) 0 (some (st.textFrom i j)) 0 []]
  | structLit {i j k : ℕ} {ts : List SyntaxTree} (hname : st.kindAt i = .identifier)
      (hpath : Segments st (i + 1) j) (hopen : st.kindAt j = .l_brace)
      (hfields : Derives st true (.commas .fieldInit) (j + 1) k ts)
      (hclose : st.kindAt k = .r_brace) :
      Derives st true (.expr 120) i (k + 1) [.node .StructLitExpr 0 (some (st.textFrom i j)) 0 ts]
  | fieldInit {lit : Bool} {i j : ℕ} {e : SyntaxTree} (hname : st.kindAt i = .identifier)
      (hcolon : st.kindAt (i + 1) = .colon) (hinit : Derives st lit .full (i + 2) j [e]) :
      Derives st lit .fieldInit i j [.node .FieldInit 0 (some (st.textAt i)) 0 [e]]
  | shortFieldInit {lit : Bool} {i : ℕ} (hname : st.kindAt i = .identifier)
      (hend : st.kindAt (i + 1) ≠ .colon) :
      Derives st lit .fieldInit i (i + 1) [.node .FieldInit 0 (some (st.textAt i)) 0
        [.node .IdentExpr 0 (some (st.textAt i)) 0 []]]
  | grouped {lit : Bool} {i j : ℕ} {e : SyntaxTree} (hopen : st.kindAt i = .l_paren)
      (hinner : Derives st true .full (i + 1) j [e]) (hclose : st.kindAt j = .r_paren) :
      Derives st lit (.expr 120) i (j + 1) [e]
  | unit {lit : Bool} {i : ℕ} (hopen : st.kindAt i = .l_paren)
      (hclose : st.kindAt (i + 1) = .r_paren) :
      Derives st lit (.expr 120) i (i + 2) [.node .TupleExpr 0 none 0 []]
  | tuple {lit : Bool} {i j k : ℕ} {e : SyntaxTree} {ts : List SyntaxTree}
      (hopen : st.kindAt i = .l_paren) (hfirst : Derives st true .full (i + 1) j [e])
      (hcomma : st.kindAt j = .comma) (hrest : Derives st true (.commas .full) (j + 1) k ts)
      (hclose : st.kindAt k = .r_paren) :
      Derives st lit (.expr 120) i (k + 1) [.node .TupleExpr 0 none 0 (e :: ts)]
  | array {lit : Bool} {i j : ℕ} {ts : List SyntaxTree} (hopen : st.kindAt i = .l_square)
      (helems : Derives st true (.commas .full) (i + 1) j ts) (hclose : st.kindAt j = .r_square) :
      Derives st lit (.expr 120) i (j + 1) [.node .ArrayLitExpr 0 none 0 ts]
  | repeated {lit : Bool} {i j k : ℕ} {e count : SyntaxTree} (hopen : st.kindAt i = .l_square)
      (helem : Derives st true .full (i + 1) j [e]) (hsemi : st.kindAt j = .semi)
      (hcount : Derives st true .full (j + 1) k [count]) (hclose : st.kindAt k = .r_square) :
      Derives st lit (.expr 120) i (k + 1) [.node .ArrayRepeatExpr 0 none 0 [e, count]]
  | tensor {lit : Bool} {i j k : ℕ} {values dims : List SyntaxTree}
      (hword : st.kindAt i = .kw_tensor) (hopen : st.kindAt (i + 1) = .l_square)
      (hvalues : Derives st true (.commas .full) (i + 2) j values) (hsome : values ≠ [])
      (hsemi : st.kindAt j = .semi) (hdims : Derives st lit (.commas .full) (j + 1) k dims)
      (hcount : dims.length % 2 ^ 16 ≠ 0) (hclose : st.kindAt k = .r_square) :
      Derives st lit (.expr 120) i (k + 1) [.node .TensorLitExpr 0 none
        (makeOpPayload (values.length % 2 ^ 16)) (values ++ dims)]
  | ifOperand {lit : Bool} {i j : ℕ} {e : SyntaxTree} (h : Derives st lit .ifExpr i j [e]) :
      Derives st lit (.expr 120) i j [e]
  | whileOperand {lit : Bool} {i j : ℕ} {e : SyntaxTree} (h : Derives st lit .whileStmt i j [e]) :
      Derives st lit (.expr 120) i j [e]
  | matchOperand {lit : Bool} {i j : ℕ} {e : SyntaxTree} (h : Derives st lit .matchExpr i j [e]) :
      Derives st lit (.expr 120) i j [e]
  | unsafeOperand {lit : Bool} {i j : ℕ} {e : SyntaxTree}
      (h : Derives st lit .unsafeBlock i j [e]) : Derives st lit (.expr 120) i j [e]
  | blockOperand {lit : Bool} {i j : ℕ} {e : SyntaxTree} (h : Derives st lit .block i j [e]) :
      Derives st lit (.expr 120) i j [e]
  -- Operators
  | unary {lit : Bool} {i j p : ℕ} {e : SyntaxTree} (hop : isPrefixOperator (st.kindAt i) = true)
      (hoperand : Derives st lit (.expr p) (i + 1) j [e]) (hp : 110 ≤ p) :
      Derives st lit (.expr 110) i j
        [.node .UnaryExpr 0 none (makeOpPayload (st.kindAt i).value) [e]]
  | deref {lit : Bool} {i j p : ℕ} {e : SyntaxTree} (hop : st.kindAt i = .star)
      (hoperand : Derives st lit (.expr p) (i + 1) j [e]) (hp : 110 ≤ p)
      (hend : st.kindAt j ≠ .eq) :
      Derives st lit (.expr 110) i j [.node .UnaryExpr 0 none (makeOpPayload Token.Kind.star.value) [e]]
  | projAssign {lit : Bool} {i j k p : ℕ} {e value : SyntaxTree} (hop : st.kindAt i = .star)
      (htarget : Derives st lit (.expr p) (i + 1) j [e]) (hp : 110 ≤ p) (heq : st.kindAt j = .eq)
      (hvalue : Derives st lit .full (j + 1) k [value]) :
      Derives st lit (.expr 120) i k [.node .ProjAssignExpr 0 none 0 [e, value]]
  | binary {lit : Bool} {i j k p q : ℕ} {l r : SyntaxTree}
      (hleft : Derives st lit (.expr p) i j [l]) (hop : 0 < precedence (st.kindAt j))
      (hp : Expression.leftPrecedence ⟨st.kindAt j, hop⟩ ≤ p)
      (hright : Derives st lit (.expr q) (j + 1) k [r])
      (hq : Expression.rightPrecedence ⟨st.kindAt j, hop⟩ ≤ q) :
      Derives st lit (.expr (precedence (st.kindAt j))) i k
        [.node .BinaryExpr 0 none (makeOpPayload (st.kindAt j).value) [l, r]]
  | call {lit : Bool} {i j k : ℕ} {f as : SyntaxTree} (hcallee : Derives st lit (.expr 120) i j [f])
      (hargs : Derives st lit .args j k [as]) :
      Derives st lit (.expr 120) i k [.node .CallExpr 0 none 0 [f, as]]
  | args {lit : Bool} {i j : ℕ} {ts : List SyntaxTree} (hopen : st.kindAt i = .l_paren)
      (hlist : Derives st true (.list .full) (i + 1) j ts) (hclose : st.kindAt j = .r_paren) :
      Derives st lit .args i (j + 1) [.node .ArgList 0 none 0 ts]
  | index {lit : Bool} {i j k : ℕ} {e : SyntaxTree} {ts : List SyntaxTree}
      (hbase : Derives st lit (.expr 120) i j [e]) (hopen : st.kindAt j = .l_square)
      (hindices : Derives st true (.commas .full) (j + 1) k ts) (hsome : ts ≠ [])
      (hclose : st.kindAt k = .r_square) :
      Derives st lit (.expr 120) i (k + 1)
        [.node (if 1 < ts.length then .TensorIndexExpr else .IndexExpr) 0 none 0 (e :: ts)]
  | field {lit : Bool} {i j : ℕ} {e : SyntaxTree} (hbase : Derives st lit (.expr 120) i j [e])
      (hdot : st.kindAt j = .dot) (hname : st.kindAt (j + 1) = .identifier) :
      Derives st lit (.expr 120) i (j + 2) [.node .FieldExpr 0 (some (st.textAt (j + 1))) 0 [e]]
  | tupleIndex {lit : Bool} {i j : ℕ} {e : SyntaxTree} (hbase : Derives st lit (.expr 120) i j [e])
      (hdot : st.kindAt j = .dot) (hindex : st.kindAt (j + 1) = .integer_literal) :
      Derives st lit (.expr 120) i (j + 2) [.node .TupleIndexExpr 0 (some (st.textAt (j + 1))) 0 [e]]
  | floatIndex {lit : Bool} {i j : ℕ} {e : SyntaxTree} {a b : Bytes}
      (hbase : Derives st lit (.expr 120) i j [e]) (hdot : st.kindAt j = .dot)
      (hindex : st.kindAt (j + 1) = .float_literal) (htext : splitDot (st.textAt (j + 1)) = some (a, b)) :
      Derives st lit (.expr 120) i (j + 2) [floatIndexTree e a (dropSuffixF b)]
  | propagate {lit : Bool} {i j : ℕ} {e : SyntaxTree} (hbase : Derives st lit (.expr 120) i j [e])
      (hmark : st.kindAt j = .question) :
      Derives st lit (.expr 120) i (j + 1) [.node .PropagateExpr 0 none 0 [e]]
  | cast {lit : Bool} {i j k : ℕ} {e type : SyntaxTree} (hbase : Derives st lit (.expr 120) i j [e])
      (hword : st.kindAt j = .kw_as) (htype : Derives st lit .type (j + 1) k [type]) :
      Derives st lit (.expr 120) i k [.node .CastExpr 0 none 0 [e, type]]
  | full {lit : Bool} {i j p : ℕ} {e : SyntaxTree} (h : Derives st lit (.expr p) i j [e])
      (hend : Ends (st.kindAt j) 0) : Derives st lit .full i j [e]
  -- Blocks and their kin
  | block {lit : Bool} {i j : ℕ} {ts : List SyntaxTree} (hopen : st.kindAt i = .l_brace)
      (hstmts : Derives st lit (.seq .stmt) (i + 1) j ts) (hclose : st.kindAt j = .r_brace) :
      Derives st lit .block i (j + 1) [.node .BlockExpr 0 none 0 ts]
  | unsafeBlock {lit : Bool} {i j : ℕ} {ts : List SyntaxTree} (hword : st.kindAt i = .kw_unsafe_)
      (hopen : st.kindAt (i + 1) = .l_brace) (hstmts : Derives st lit (.seq .stmt) (i + 2) j ts)
      (hclose : st.kindAt j = .r_brace) :
      Derives st lit .unsafeBlock i (j + 1) [.node .UnsafeBlock 0 none 0 ts]
  | ifExpr {lit : Bool} {i j k l : ℕ} {cond body : SyntaxTree} {ts : List SyntaxTree}
      (hword : st.kindAt i = .kw_if) (hcond : Derives st false .full (i + 1) j [cond])
      (hbody : Derives st lit .block j k [body])
      (helse : Derives st lit (.after .kw_else .branch) k l ts) :
      Derives st lit .ifExpr i l [.node .IfExpr 0 none 0 (cond :: body :: ts)]
  | ifBranch {lit : Bool} {i j : ℕ} {e : SyntaxTree} (h : Derives st lit .ifExpr i j [e]) :
      Derives st lit .branch i j [e]
  | blockBranch {lit : Bool} {i j : ℕ} {e : SyntaxTree} (h : Derives st lit .block i j [e]) :
      Derives st lit .branch i j [e]
  | whileStmt {lit : Bool} {i j k : ℕ} {cond body : SyntaxTree} (hword : st.kindAt i = .kw_while)
      (hcond : Derives st false .full (i + 1) j [cond]) (hbody : Derives st lit .block j k [body]) :
      Derives st lit .whileStmt i k [.node .WhileStmt 0 none 0 [cond, body]]
  | matchExpr {lit : Bool} {i j k : ℕ} {e : SyntaxTree} {ts : List SyntaxTree}
      (hword : st.kindAt i = .kw_match) (hscrutinee : Derives st false .full (i + 1) j [e])
      (hopen : st.kindAt j = .l_brace) (harms : Derives st lit (.seq .arm) (j + 1) k ts)
      (hclose : st.kindAt k = .r_brace) :
      Derives st lit .matchExpr i (k + 1) [.node .MatchExpr 0 none 0 (e :: ts)]
  | arm {lit : Bool} {i j k l : ℕ} {p value : SyntaxTree} (hpat : Derives st lit .pat i j [p])
      (harrow : st.kindAt j = .fat_arrow) (hvalue : Derives st lit .full (j + 1) k [value])
      (hend : l = st.armEnd k) : Derives st lit .arm i l [.node .MatchArm 0 none 0 [p, value]]
  -- Statements
  | exprStmt {lit : Bool} {i j : ℕ} {e : SyntaxTree} (hstart : startsExprStmt (st.kindAt i) = true)
      (h : Derives st lit .full i j [e]) (hsemi : st.kindAt j = .semi) :
      Derives st lit .stmt i (j + 1) [e]
  | letStmt {lit : Bool} {i j k l : ℕ} {r : Regime} {ts es : List SyntaxTree}
      (hword : st.kindAt i = .kw_let) (hregime : Marks st (i + 1) j r)
      (hname : st.kindAt j = .identifier) (htype : Derives st lit (.after .colon .type) (j + 1) k ts)
      (hinit : Derives st lit (.after .eq .full) k l es) (hsemi : st.kindAt l = .semi) :
      Derives st lit .stmt i (l + 1) [.node .LetStmt 0 (some (st.textAt j)) r.value (ts ++ es)]
  | ifStmt {lit : Bool} {i j : ℕ} {e : SyntaxTree} (h : Derives st lit .ifExpr i j [e]) :
      Derives st lit .stmt i j [e]
  | forStmt {lit : Bool} {i j k l : ℕ} {r : Regime} {e body : SyntaxTree}
      (hword : st.kindAt i = .kw_for) (hregime : Marks st (i + 1) j r)
      (hname : st.kindAt j = .identifier) (hin : st.kindAt (j + 1) = .kw_in_)
      (hiterable : Derives st false .full (j + 2) k [e]) (hbody : Derives st lit .block k l [body]) :
      Derives st lit .stmt i l [.node .ForStmt 0 (some (st.textAt j)) r.value [e, body]]
  | loopStmt {lit : Bool} {i j : ℕ} {e : SyntaxTree} (h : Derives st lit .whileStmt i j [e]) :
      Derives st lit .stmt i j [e]
  | blockStmt {lit : Bool} {i j : ℕ} {e : SyntaxTree} (h : Derives st lit .block i j [e]) :
      Derives st lit .stmt i j [e]
  | retStmt {lit : Bool} {i j : ℕ} {e : SyntaxTree} (hword : st.kindAt i = .kw_ret)
      (h : Derives st lit .full (i + 1) j [e]) (hsemi : st.kindAt j = .semi) :
      Derives st lit .stmt i (j + 1) [.node .RetStmt 0 none 0 [e]]
  | breakStmt {lit : Bool} {i : ℕ} (hword : st.kindAt i = .kw_break)
      (hsemi : st.kindAt (i + 1) = .semi) :
      Derives st lit .stmt i (i + 2) [.node .BreakStmt 0 none 0 []]
  | continueStmt {lit : Bool} {i : ℕ} (hword : st.kindAt i = .kw_continue)
      (hsemi : st.kindAt (i + 1) = .semi) :
      Derives st lit .stmt i (i + 2) [.node .ContinueStmt 0 none 0 []]
  | unsafeStmt {lit : Bool} {i j : ℕ} {e : SyntaxTree} (h : Derives st lit .unsafeBlock i j [e]) :
      Derives st lit .stmt i j [e]
  -- Generic parameters, parameters, fields, and variants
  | genericParam {lit : Bool} {i : ℕ} (hname : st.kindAt i = .identifier)
      (hend : st.kindAt (i + 1) ≠ .colon) :
      Derives st lit .genericParam i (i + 1)
        [.node .GenericParam 0 (some (st.textAt i)) 0 [.missing]]
  | boundedParam {lit : Bool} {i j : ℕ} {type : SyntaxTree} (hname : st.kindAt i = .identifier)
      (hcolon : st.kindAt (i + 1) = .colon) (htype : Derives st lit .type (i + 2) j [type]) :
      Derives st lit .genericParam i j [.node .GenericParam 0 (some (st.textAt i)) 0 [type]]
  | noGenerics {lit : Bool} {i : ℕ} (hend : st.kindAt i ≠ .less) : Derives st lit .generics i i []
  | generics {lit : Bool} {i j : ℕ} {ts : List SyntaxTree} (hopen : st.kindAt i = .less)
      (hlist : Derives st lit (.commas .genericParam) (i + 1) j ts)
      (hclose : st.kindAt j = .greater) :
      Derives st lit .generics i (j + 1) [.node .GenericParamList 0 none 0 ts]
  | param {lit : Bool} {i j k : ℕ} {r : Regime} {type : SyntaxTree} (hregime : Marks st i j r)
      (hname : st.kindAt j = .identifier) (hcolon : st.kindAt (j + 1) = .colon)
      (htype : Derives st lit .type (j + 2) k [type]) :
      Derives st lit .param i k [.node .Param 0 (some (st.textAt j)) r.value [type]]
  | selfParam {lit : Bool} {i j : ℕ} {r : Regime} (hregime : Marks st i j r)
      (hname : st.kindAt j = .identifier) (hself : st.textAt j = ascii "self")
      (hend : st.kindAt (j + 1) = .r_paren ∨ st.kindAt (j + 1) = .comma) :
      Derives st lit .param i (j + 1) [.node .Param 0 (some (st.textAt j)) r.value
        [.node .NamedType 0 (some (ascii "Self")) 0 []]]
  | params {lit : Bool} {i j : ℕ} {ts : List SyntaxTree} (hopen : st.kindAt i = .l_paren)
      (hlist : Derives st lit (.list .param) (i + 1) j ts) (hclose : st.kindAt j = .r_paren) :
      Derives st lit .params i (j + 1) [.node .ParamList 0 none 0 ts]
  | structField {lit : Bool} {i j k : ℕ} {r : Regime} {type : SyntaxTree} (hregime : Marks st i j r)
      (hname : st.kindAt j = .identifier) (hcolon : st.kindAt (j + 1) = .colon)
      (htype : Derives st lit .type (j + 2) k [type]) :
      Derives st lit .structField i k [.node .StructField 0 (some (st.textAt j)) r.value [type]]
  | unitVariant {lit : Bool} {i : ℕ} (hname : st.kindAt i = .identifier)
      (hend : st.kindAt (i + 1) ≠ .l_paren ∧ st.kindAt (i + 1) ≠ .l_brace ∧
        st.kindAt (i + 1) ≠ .eq) :
      Derives st lit .variant i (i + 1)
        [.node .EnumVariantUnit 0 (some (st.textAt i)) Regime.None.value []]
  | valuedVariant {lit : Bool} {i j : ℕ} {e : SyntaxTree} (hname : st.kindAt i = .identifier)
      (heq : st.kindAt (i + 1) = .eq) (hvalue : Derives st lit .full (i + 2) j [e]) :
      Derives st lit .variant i j
        [.node .EnumVariantUnit 0 (some (st.textAt i)) Regime.None.value [e]]
  | tupleVariant {lit : Bool} {i j : ℕ} {ts : List SyntaxTree} (hname : st.kindAt i = .identifier)
      (hopen : st.kindAt (i + 1) = .l_paren)
      (htypes : Derives st lit (.commas .type) (i + 2) j ts) (hclose : st.kindAt j = .r_paren) :
      Derives st lit .variant i (j + 1)
        [.node .EnumVariantTuple 0 (some (st.textAt i)) Regime.None.value ts]
  | structVariant {lit : Bool} {i j : ℕ} {ts : List SyntaxTree} (hname : st.kindAt i = .identifier)
      (hopen : st.kindAt (i + 1) = .l_brace)
      (hfields : Derives st lit (.commas .structField) (i + 2) j ts)
      (hclose : st.kindAt j = .r_brace) :
      Derives st lit .variant i (j + 1)
        [.node .EnumVariantStruct 0 (some (st.textAt i)) Regime.None.value ts]
  -- Functions
  | blockBody {lit : Bool} {i j : ℕ} {e : SyntaxTree} (h : Derives st lit .block i j [e]) :
      Derives st lit (.body true) i j [e]
  | noBody {lit : Bool} {i : ℕ} (hsemi : st.kindAt i = .semi) :
      Derives st lit (.body false) i (i + 1) [.missing]
  | fn {lit : Bool} {docs : List SyntaxTree} {flags u : ℕ} {b : Bool} {i j k l m o q : ℕ} {r : Regime}
      {gs rs : List SyntaxTree} {ps body : SyntaxTree}
      (hflag : Flagged st .kw_unsafe_ UnsafeFlag i j u) (hword : st.kindAt j = .kw_fn)
      (hregime : Marks st (j + 1) k r) (hname : st.kindAt k = .identifier)
      (hgenerics : Derives st lit .generics (k + 1) l gs) (hparams : Derives st lit .params l m [ps])
      (hreturn : Derives st lit (.after .colon .type) m o rs)
      (hbody : Derives st lit (.body b) o q [body]) :
      Derives st lit (.fn docs flags b) i q [.node .FnDecl (flags ||| u) (some (st.textAt k)) r.value
        (docs ++ gs ++ [ps] ++ rs ++ [body])]
  | method {lit : Bool} {b : Bool} {i j k : ℕ} {docs : List SyntaxTree} {f : SyntaxTree}
      (hdocs : Docs st .doc_comment .DocComment i j docs) (h : Derives st lit (.fn docs 0 b) j k [f]) :
      Derives st lit (.method b) i k [f]
  -- Declarations
  | fnDecl {lit : Bool} {docs : List SyntaxTree} {flags i j : ℕ} {f : SyntaxTree}
      (h : Derives st lit (.fn docs flags true) i j [f]) : Derives st lit (.decl docs flags) i j [f]
  | structDecl {lit : Bool} {docs : List SyntaxTree} {flags i j k : ℕ} {gs ts : List SyntaxTree}
      (hword : st.kindAt i = .kw_struct) (hname : st.kindAt (i + 1) = .identifier)
      (hgenerics : Derives st lit .generics (i + 2) j gs) (hopen : st.kindAt j = .l_brace)
      (hfields : Derives st lit (.commas .structField) (j + 1) k ts)
      (hclose : st.kindAt k = .r_brace) :
      Derives st lit (.decl docs flags) i (k + 1)
        [.node .StructDecl flags (some (st.textAt (i + 1))) 0 (docs ++ gs ++ ts)]
  | enumDecl {lit : Bool} {docs : List SyntaxTree} {flags i j k : ℕ} {gs ts : List SyntaxTree}
      (hword : st.kindAt i = .kw_enum) (hname : st.kindAt (i + 1) = .identifier)
      (hgenerics : Derives st lit .generics (i + 2) j gs) (hopen : st.kindAt j = .l_brace)
      (hvariants : Derives st lit (.commas .variant) (j + 1) k ts)
      (hclose : st.kindAt k = .r_brace) :
      Derives st lit (.decl docs flags) i (k + 1)
        [.node .EnumDecl flags (some (st.textAt (i + 1))) 0 (docs ++ gs ++ ts)]
  | unionDecl {lit : Bool} {docs : List SyntaxTree} {flags i j k : ℕ} {gs ts : List SyntaxTree}
      (hword : st.kindAt i = .kw_union) (hname : st.kindAt (i + 1) = .identifier)
      (hgenerics : Derives st lit .generics (i + 2) j gs) (hopen : st.kindAt j = .l_brace)
      (hfields : Derives st lit (.commas .structField) (j + 1) k ts)
      (hclose : st.kindAt k = .r_brace) :
      Derives st lit (.decl docs flags) i (k + 1)
        [.node .UnionDecl flags (some (st.textAt (i + 1))) 0 (docs ++ gs ++ ts)]
  | modDecl {lit : Bool} {docs : List SyntaxTree} {flags i j : ℕ} {ts : List SyntaxTree}
      (hword : st.kindAt i = .kw_mod) (hname : st.kindAt (i + 1) = .identifier)
      (hopen : st.kindAt (i + 2) = .l_brace) (hitems : Derives st lit (.seq .item) (i + 3) j ts)
      (hclose : st.kindAt j = .r_brace) :
      Derives st lit (.decl docs flags) i (j + 1)
        [.node .ModDecl flags (some (st.textAt (i + 1))) 0 (docs ++ ts)]
  | modDeclFile {lit : Bool} {docs : List SyntaxTree} {flags i : ℕ} (hword : st.kindAt i = .kw_mod)
      (hname : st.kindAt (i + 1) = .identifier) (hsemi : st.kindAt (i + 2) = .semi) :
      Derives st lit (.decl docs flags) i (i + 3)
        [.node .ModDeclFile flags (some (st.textAt (i + 1))) 0 docs]
  | useDecl {lit : Bool} {docs : List SyntaxTree} {flags i j : ℕ} (hword : st.kindAt i = .kw_use)
      (hname : st.kindAt (i + 1) = .identifier) (hpath : Segments st (i + 2) j)
      (hsemi : st.kindAt j = .semi) :
      Derives st lit (.decl docs flags) i (j + 1)
        [.node .UseDecl flags (some (st.textFrom (i + 1) j)) 0 docs]
  | useGlob {lit : Bool} {docs : List SyntaxTree} {flags i j : ℕ} (hword : st.kindAt i = .kw_use)
      (hname : st.kindAt (i + 1) = .identifier) (hpath : Segments st (i + 2) j)
      (hsep : st.kindAt j = .colon_colon) (hstar : st.kindAt (j + 1) = .star)
      (hsemi : st.kindAt (j + 2) = .semi) :
      Derives st lit (.decl docs flags) i (j + 3)
        [.node .UseDecl flags (some (st.textFrom (i + 1) (j + 2))) 0 docs]
  | useAlias {lit : Bool} {docs : List SyntaxTree} {flags i j : ℕ} (hword : st.kindAt i = .kw_use)
      (hname : st.kindAt (i + 1) = .identifier) (hpath : Segments st (i + 2) j)
      (has : st.kindAt j = .kw_as) (halias : st.kindAt (j + 1) = .identifier)
      (hsemi : st.kindAt (j + 2) = .semi) :
      Derives st lit (.decl docs flags) i (j + 3)
        [.node .UseDecl flags (some (st.textFrom (i + 1) (j + 2))) 0 docs]
  | constDecl {lit : Bool} {docs : List SyntaxTree} {flags i j k : ℕ} {type value : SyntaxTree}
      (hword : st.kindAt i = .kw_const) (hname : st.kindAt (i + 1) = .identifier)
      (hcolon : st.kindAt (i + 2) = .colon) (htype : Derives st lit .type (i + 3) j [type])
      (heq : st.kindAt j = .eq) (hvalue : Derives st lit .full (j + 1) k [value])
      (hsemi : st.kindAt k = .semi) :
      Derives st lit (.decl docs flags) i (k + 1)
        [.node .ConstDecl flags (some (st.textAt (i + 1))) 0 (docs ++ [type, value])]
  | traitDecl {lit : Bool} {docs : List SyntaxTree} {flags i j k : ℕ} {gs ts : List SyntaxTree}
      (hword : st.kindAt i = .kw_trait) (hname : st.kindAt (i + 1) = .identifier)
      (hgenerics : Derives st lit .generics (i + 2) j gs) (hopen : st.kindAt j = .l_brace)
      (hmethods : Derives st lit (.seq (.method false)) (j + 1) k ts)
      (hclose : st.kindAt k = .r_brace) :
      Derives st lit (.decl docs flags) i (k + 1)
        [.node .TraitDecl flags (some (st.textAt (i + 1))) 0 (docs ++ gs ++ ts)]
  | implDecl {lit : Bool} {docs : List SyntaxTree} {flags i j k l : ℕ} {gs ts : List SyntaxTree}
      {type : SyntaxTree} (hword : st.kindAt i = .kw_impl)
      (hgenerics : Derives st lit .generics (i + 1) j gs) (htype : Derives st lit .type j k [type])
      (hopen : st.kindAt k = .l_brace) (hmethods : Derives st lit (.seq (.method true)) (k + 1) l ts)
      (hclose : st.kindAt l = .r_brace) :
      Derives st lit (.decl docs flags) i (l + 1)
        [.node .ImplDecl flags none 0 (docs ++ gs ++ [.missing, type] ++ ts)]
  | implTrait {lit : Bool} {docs : List SyntaxTree} {flags i j k l m : ℕ} {gs ts : List SyntaxTree}
      {trait type : SyntaxTree} (hword : st.kindAt i = .kw_impl)
      (hgenerics : Derives st lit .generics (i + 1) j gs) (htrait : Derives st lit .type j k [trait])
      (hfor : st.kindAt k = .kw_for) (htype : Derives st lit .type (k + 1) l [type])
      (hopen : st.kindAt l = .l_brace) (hmethods : Derives st lit (.seq (.method true)) (l + 1) m ts)
      (hclose : st.kindAt m = .r_brace) :
      Derives st lit (.decl docs flags) i (m + 1)
        [.node .ImplDecl flags none 0 (docs ++ gs ++ [trait, type] ++ ts)]
  | item {lit : Bool} {docs : List SyntaxTree} {flags i j k l : ℕ} {d : SyntaxTree}
      (hdocs : Docs st .doc_comment .DocComment i j docs)
      (hpub : Flagged st .kw_pub PubFlag j k flags) (h : Derives st lit (.decl docs flags) k l [d]) :
      Derives st lit .item i l [d]
  | file {lit : Bool} {docs ts : List SyntaxTree} {i j k : ℕ}
      (hdocs : Docs st .file_doc_comment .FileDocComment i j docs)
      (hitems : Derives st lit (.seq .item) j k ts) (heof : st.kindAt k = .eof) :
      Derives st lit .file i k [.node .SourceFile 0 none 0 (docs ++ ts)]
  -- Options and lists
  | absent {lit : Bool} {mark : Token.Kind} {ph : Phrase} {i : ℕ} (hend : st.kindAt i ≠ mark) :
      Derives st lit (.after mark ph) i i []
  | present {lit : Bool} {mark : Token.Kind} {ph : Phrase} {i j : ℕ} {t : SyntaxTree}
      (hmark : st.kindAt i = mark) (hne : mark ≠ .eof) (h : Derives st lit ph (i + 1) j [t]) :
      Derives st lit (.after mark ph) i j [t]
  | noCommas {lit : Bool} {ph : Phrase} {i : ℕ} : Derives st lit (.commas ph) i i []
  | lastCommas {lit : Bool} {ph : Phrase} {i j : ℕ} {t : SyntaxTree} (h : Derives st lit ph i j [t]) :
      Derives st lit (.commas ph) i j [t]
  | moreCommas {lit : Bool} {ph : Phrase} {i j k : ℕ} {t : SyntaxTree} {ts : List SyntaxTree}
      (h : Derives st lit ph i j [t]) (hcomma : st.kindAt j = .comma)
      (hrest : Derives st lit (.commas ph) (j + 1) k ts) : Derives st lit (.commas ph) i k (t :: ts)
  | noList {lit : Bool} {ph : Phrase} {i : ℕ} : Derives st lit (.list ph) i i []
  | lastList {lit : Bool} {ph : Phrase} {i j : ℕ} {t : SyntaxTree} (h : Derives st lit ph i j [t]) :
      Derives st lit (.list ph) i j [t]
  | moreList {lit : Bool} {ph : Phrase} {i j k : ℕ} {t t' : SyntaxTree} {ts : List SyntaxTree}
      (h : Derives st lit ph i j [t]) (hcomma : st.kindAt j = .comma)
      (hrest : Derives st lit (.list ph) (j + 1) k (t' :: ts)) :
      Derives st lit (.list ph) i k (t :: t' :: ts)
  | noSeq {lit : Bool} {ph : Phrase} {i : ℕ} : Derives st lit (.seq ph) i i []
  | moreSeq {lit : Bool} {ph : Phrase} {i j k : ℕ} {t : SyntaxTree} {ts : List SyntaxTree}
      (h : Derives st lit ph i j [t]) (hrest : Derives st lit (.seq ph) j k ts) :
      Derives st lit (.seq ph) i k (t :: ts)

/-! ### What every derivation has -/

variable {st : TokenStream} {lit : Bool} {ph : Phrase} {i j : ℕ} {ts : List SyntaxTree} {r : Regime}
  {kind : NodeKind} {word : Token.Kind} {flag u : ℕ}

theorem Segments.le (h : Segments st i j) : i ≤ j := by
  induction h with
  | nil => exact le_rfl
  | cons _ _ _ ih => omega

theorem Marks.le (h : Marks st i j r) : i ≤ j := by
  cases h <;> omega

theorem Flagged.le (h : Flagged st word flag i j u) : i ≤ j := by
  cases h <;> omega

theorem Docs.le (h : Docs st word kind i j ts) : i ≤ j := by
  induction h with
  | nil => exact le_rfl
  | cons _ _ ih => omega

theorem Marks.starts (h : Marks st i j r) (hj : closesElement (st.kindAt j) = false) :
    closesElement (st.kindAt i) = false := by
  cases h with
  | unmarked => exact hj
  | isImm h => rw [h]; rfl
  | isMut h => rw [h]; rfl
  | isProj h => rw [h]; rfl

theorem Flagged.starts (h : Flagged st word flag i j u) (hw : closesElement word = false)
    (hj : closesElement (st.kindAt j) = false) : closesElement (st.kindAt i) = false := by
  cases h with
  | absent => exact hj
  | present h => rw [h]; exact hw

theorem Docs.starts (h : Docs st word kind i j ts) (hw : closesElement word = false)
    (hj : closesElement (st.kindAt j) = false) : closesElement (st.kindAt i) = false := by
  cases h with
  | nil => exact hj
  | cons h => rw [h]; exact hw

/-- Phrases that lists consist of: they are not empty and start with a token that ends no list. -/
def Phrase.isElement : Phrase → Bool
  | .generics | .body _ | .file | .after _ _ | .commas _ | .list _ | .seq _ => false
  | _ => true

/-- A node, and no error. -/
def SyntaxTree.IsNode : SyntaxTree → Prop
  | .missing => False
  | .node kind _ _ _ _ => kind ≠ .Error

@[simp] theorem isNode_node {flags rest : ℕ} {name : Option Bytes} :
    (SyntaxTree.node kind flags name rest ts).IsNode ↔ kind ≠ .Error := Iff.rfl

theorem floatIndexTree_isNode (e : SyntaxTree) (a b : Bytes) : (floatIndexTree e a b).IsNode := by
  unfold floatIndexTree
  split <;> simp [SyntaxTree.IsNode]

theorem closesElement_literal {k : Token.Kind} (h : isLiteral k = true) :
    closesElement k = false := by
  revert h
  cases k <;> decide

theorem closesElement_sign {k : Token.Kind} (h : isPrefixOperator k = true) :
    closesElement k = false := by
  revert h
  cases k <;> decide

theorem le_armEnd (st : TokenStream) (k : ℕ) : k ≤ st.armEnd k := by
  unfold TokenStream.armEnd
  split <;> omega

theorem Derives.le_lt (h : Derives st lit ph i j ts) :
    i ≤ j ∧ (ph.isElement = true → i < j) := by
  induction h with
  | namedType _ h | namePat _ _ h | name _ h | useDecl _ _ h | useGlob _ _ h | useAlias _ _ h
  | variantPat _ _ h | structPat _ _ h | structLit _ h
  | letStmt _ h | forStmt _ h | param h | selfParam h | structField h
  | method h | file h =>
    have hle := h.le
    simp [Phrase.isElement] at *
    omega
  | fn h _ h' | item h h' =>
    have hle := h.le
    have hle' := h'.le
    simp [Phrase.isElement] at *
    omega
  | arm _ _ _ h =>
    have hle := h ▸ le_armEnd st _
    simp [Phrase.isElement] at *
    omega
  | _ => simp [Phrase.isElement] at * <;> omega

theorem Derives.le (h : Derives st lit ph i j ts) : i ≤ j := h.le_lt.1

theorem Derives.isNode (h : Derives st lit ph i j ts) (hph : ph.isElement = true) :
    ∀ t ∈ ts, t.IsNode := by
  induction h with
  | floatIndex => simpa using floatIndexTree_isNode _ _ _
  | name | index => simp; split <;> decide
  | _ => simp_all [Phrase.isElement]

/-- The tokens between elements start none. -/
theorem Derives.starts (h : Derives st lit ph i j ts) (hph : ph.isElement = true) :
    closesElement (st.kindAt i) = false := by
  induction h with
  | namedType hname => rcases hname with hk | hk <;> rw [hk] <;> rfl
  | literalPat h | literal h => exact closesElement_literal h
  | unary h => exact closesElement_sign h
  | param h hname | selfParam h hname | structField h hname =>
    exact h.starts (by rw [hname]; rfl)
  | fn h hword => exact h.starts rfl (by rw [hword]; rfl)
  | method h _ ih => exact h.starts rfl (ih rfl)
  | item h h' _ ih => exact h.starts rfl (h'.starts rfl (ih rfl))
  | _ => simp_all [Phrase.isElement, closesElement, isSync]

theorem lt_of_kindAt_stream (h : st.kindAt i ≠ .eof) : i < st.tokens.length := by
  by_contra hge
  have hnone : st.tokens[i + 0]? = none := List.getElem?_eq_none (by omega)
  exact h (by unfold TokenStream.kindAt TokenStream.peek; simp only [hnone])

theorem tokenAt_kind (st : TokenStream) (i : ℕ) : (st.tokenAt i).tokenKind = st.kindAt i :=
  peekToken_kind _

theorem kindAt_eof_or_lt (st : TokenStream) (i : ℕ) :
    st.kindAt i = .eof ∨ i < st.tokens.length := by
  by_cases h : st.kindAt i = .eof
  · exact .inl h
  · exact .inr (lt_of_kindAt_stream h)

theorem Segments.inside (h : Segments st i j) (hi : i ≤ st.tokens.length) :
    j ≤ st.tokens.length := by
  induction h <;> grind [kindAt_eof_or_lt]

theorem Marks.inside (h : Marks st i j r) (hi : i ≤ st.tokens.length) : j ≤ st.tokens.length := by
  cases h <;> grind [kindAt_eof_or_lt]

theorem Flagged.inside (h : Flagged st word flag i j u) (hw : word ≠ .eof)
    (hi : i ≤ st.tokens.length) : j ≤ st.tokens.length := by
  cases h <;> grind [kindAt_eof_or_lt]

theorem Docs.inside (h : Docs st word kind i j ts) (hw : word ≠ .eof)
    (hi : i ≤ st.tokens.length) : j ≤ st.tokens.length := by
  induction h <;> grind [kindAt_eof_or_lt]

theorem armEnd_inside {k : ℕ} (h : k ≤ st.tokens.length) : st.armEnd k ≤ st.tokens.length := by
  unfold TokenStream.armEnd
  split <;> grind [kindAt_eof_or_lt]

/-- Only what is there is derived. -/
theorem Derives.inside (h : Derives st lit ph i j ts) (hi : i ≤ st.tokens.length) :
    j ≤ st.tokens.length := by
  induction h <;>
    grind [kindAt_eof_or_lt, → Segments.inside, → Marks.inside, → Flagged.inside, → Docs.inside,
      armEnd_inside, isLiteral, isPrefixOperator, precedence]

end Parser

end Eter
