import Eter.GrammarDecls
import Eter.ParserRuns

/-!
# Every phrase of the grammar is read
-/

namespace Eter.Parser
open Stateful NodePool

variable {st : TokenStream} {lit b : Bool} {n i j k flags : ℕ} {ph : Phrase} {tr : SyntaxTree}
  {ts docs : List SyntaxTree} {word : Token.Kind} {p : ℕ → ParserM NodeIndex}

/-! ### How phrases start -/

/-- The only token that a phrase starts with. -/
def Phrase.lead : Phrase → Option Token.Kind
  | .args | .params => some .l_paren
  | .block => some .l_brace
  | .ifExpr => some .kw_if
  | .whileStmt => some .kw_while
  | .matchExpr => some .kw_match
  | .unsafeBlock => some .kw_unsafe_
  | .genericParam => some .identifier
  | _ => none

theorem Derives.lead (h : Derives st lit ph i j ts) (hph : ph.lead = some word) :
    st.kindAt i = word := by
  cases h <;> simp_all [Phrase.lead]

theorem Derives.body_start (h : Derives st lit (.body b) i j ts) : st.kindAt i ≠ .arrow := by
  cases h with
  | blockBody h => rw [h.lead rfl]; decide
  | noBody h => rw [h]; decide

theorem Derives.fn_start (h : Derives st lit (.fn docs flags b) i j ts) :
    st.kindAt i = .kw_fn ∨ st.kindAt i = .kw_unsafe_ := by
  cases h with
  | fn hflag hword =>
    cases hflag with
    | absent => exact .inl hword
    | present h => exact .inr h

/-- What stands behind docs and `pub` is neither. -/
theorem Derives.decl_start (h : Derives st lit (.decl docs flags) i j ts) :
    st.kindAt i ≠ .doc_comment ∧ st.kindAt i ≠ .file_doc_comment ∧ st.kindAt i ≠ .kw_pub := by
  cases h with
  | fnDecl h => rcases h.fn_start with hk | hk <;> simp [hk]
  | _ => simp [*]

theorem Flagged.start {flag u : ℕ} (h : Flagged st word flag i j u) :
    st.kindAt i = word ∨ i = j := by
  cases h with
  | absent => exact .inr rfl
  | present h => exact .inl h

theorem Docs.start {kind : NodeKind} (h : Docs st word kind i j ts) :
    st.kindAt i = word ∨ i = j := by
  cases h with
  | nil => exact .inr rfl
  | cons h => exact .inl h

theorem Derives.item_start (h : Derives st lit .item i j ts) :
    st.kindAt i ≠ .file_doc_comment := by
  cases h with
  | item hdocs hpub h =>
    rcases hdocs.start with hk | rfl
    · rw [hk]; decide
    · rcases hpub.start with hk | rfl
      · rw [hk]; decide
      · exact h.decl_start.2.1

/-! ### How phrases are read -/

/-- How the parser reads a phrase that is one tree. -/
def ReadAs (st : TokenStream) (lit : Bool) : Phrase → ℕ → ℕ → SyntaxTree → Prop
  | .type => Element st lit typeParser 1
  | .pat => Element st lit patParser 1
  | .fieldPat => Element st lit fieldPatParser 1
  | .expr p => OperandAt st lit p
  | .full => Element st lit exprParser 1
  | .fieldInit => Element st lit fieldInitParser 1
  | .args => Element st lit argsParser 0
  | .block => Element st lit blockParser 0
  | .ifExpr => Element st lit ifParser 0
  | .branch => Element st lit branchParser 0
  | .whileStmt => Element st lit whileParser 0
  | .matchExpr => Element st lit matchParser 0
  | .arm => Element st lit armParser 1
  | .unsafeBlock => Element st lit unsafeParser 0
  | .stmt => Element st lit stmtParser 1
  | .genericParam => GenericParamAt st lit
  | .param => Element st lit paramParser 1
  | .params => Element st lit paramsParser 0
  | .structField => Element st lit structFieldParser 1
  | .variant => Element st lit variantParser 1
  | .body b => BodyAt st lit b
  | .fn docs flags b => FnAt st lit b docs flags
  | .method b => MethodAt st lit b
  | .decl docs flags => RunsBehind st lit (declParser flags) docs
  | .item => Element st lit itemParser 1
  | .file => Runs st lit parseSourceFile 1
  | _ => fun _ _ _ => True

/-- How the parser reads a phrase. -/
def Reading (st : TokenStream) (lit : Bool) : Phrase → ℕ → ℕ → List SyntaxTree → Prop
  | .generics, i, j, ts => GenericsAt st lit i j ts
  | .after mark ph, i, j, ts => AfterOf st mark (ReadAs st lit ph) i j ts
  | .commas ph, i, j, ts => CommasOf st (ReadAs st lit ph) i j ts
  | .list ph, i, j, ts => ListOf st (ReadAs st lit ph) i j ts
  | .seq ph, i, j, ts => SeqOf (ReadAs st lit ph) i j ts
  | ph, i, j, [tr] => ReadAs st lit ph i j tr
  | _, _, _, _ => False

theorem Reading.readAs (h : Reading st lit ph i j [tr]) : ReadAs st lit ph i j tr := by
  cases ph with
  | generics | after | commas | list | seq => trivial
  | _ => exact h

theorem Derives.element {e : ℕ} (h : Derives st lit ph i j [tr]) (hph : ph.isElement = true)
    (hr : Runs st lit p e i j tr) : Element st lit p e i j tr :=
  ⟨h.le_lt.2 hph, h.starts hph, h.isNode hph tr (List.mem_singleton_self tr), hr⟩

theorem Derives.reading (h : Derives st lit ph i j ts) : Reading st lit ph i j ts := by
  induction h with
  -- Types
  | namedType hname hpath hend =>
    exact Derives.element (.namedType hname hpath hend) rfl (reads_namedType hname hpath hend)
  | arrayType hopen helem hsemi hsize hclose ihelem ihsize =>
    exact Derives.element (.arrayType hopen helem hsemi hsize hclose) rfl
      (reads_arrayType hopen ihelem hsemi ihsize hclose)
  | tensorType hword hopen helem hsemi hdims hsome hclose ihelem ihdims =>
    exact Derives.element (.tensorType hword hopen helem hsemi hdims hsome hclose) rfl
      (reads_tensorType hword hopen ihelem hsemi ihdims hsome hdims.le hclose)
  | tupleType hopen helems hclose ihelems =>
    exact Derives.element (.tupleType hopen helems hclose) rfl
      (reads_tupleType hopen ihelems helems.le hclose)
  -- Patterns
  | wildcardPat hname htext =>
    exact Derives.element (.wildcardPat hname htext) rfl (reads_wildcardPat hname htext)
  | namePat hname htext hpath hend =>
    exact Derives.element (.namePat hname htext hpath hend) rfl (reads_namePat hname htext hpath hend)
  | variantPat hname htext hpath hopen helems hclose ihelems =>
    exact Derives.element (.variantPat hname htext hpath hopen helems hclose) rfl
      (reads_variantPat hname htext hpath hopen ihelems helems.le hclose)
  | structPat hname htext hpath hopen hfields hclose ihfields =>
    exact Derives.element (.structPat hname htext hpath hopen hfields hclose) rfl
      (reads_structPat hname htext hpath hopen ihfields hfields.le hclose)
  | tuplePat hopen helems hclose ihelems =>
    exact Derives.element (.tuplePat hopen helems hclose) rfl
      (reads_tuplePat hopen ihelems helems.le hclose)
  | literalPat hlit => exact Derives.element (.literalPat hlit) rfl (reads_literalPat hlit)
  | fieldPat hname hend =>
    exact Derives.element (.fieldPat hname hend) rfl (reads_fieldPat hname hend)
  | boundFieldPat hname hcolon hpat ihpat =>
    exact Derives.element (.boundFieldPat hname hcolon hpat) rfl
      (reads_boundFieldPat hname hcolon ihpat)
  -- Operands
  | literal hlit => exact operand_literal hlit
  | name hname hpath hend hbrace => exact operand_name hname hpath hend hbrace
  | structLit hname hpath hopen hfields hclose ihfields =>
    exact operand_structLit hname hpath hopen ihfields hfields.le hclose
  | fieldInit hname hcolon hinit ihinit =>
    exact Derives.element (.fieldInit hname hcolon hinit) rfl (reads_fieldInit hname hcolon ihinit)
  | shortFieldInit hname hend =>
    exact Derives.element (.shortFieldInit hname hend) rfl (reads_shortFieldInit hname hend)
  | grouped hopen _ hclose ihinner => exact operand_grouped hopen ihinner hclose
  | unit hopen hclose => exact operand_unit hopen hclose
  | tuple hopen _ hcomma hrest hclose ihfirst ihrest =>
    exact operand_tuple hopen ihfirst hcomma ihrest hrest.le hclose
  | array hopen helems hclose ihelems => exact operand_array hopen ihelems helems.le hclose
  | repeated hopen _ hsemi _ hclose ihelem ihcount =>
    exact operand_repeated hopen ihelem hsemi ihcount hclose
  | tensor hword hopen hvalues hsome hsemi hdims hcount hclose ihvalues ihdims =>
    exact operand_tensor hword hopen ihvalues hsome hvalues.le hsemi ihdims hcount hdims.le hclose
  | ifOperand h ih => exact operand_if (h.lead rfl) ih
  | whileOperand h ih => exact operand_while (h.lead rfl) ih
  | matchOperand h ih => exact operand_match (h.lead rfl) ih
  | unsafeOperand h ih => exact operand_unsafe (h.lead rfl) ih
  | blockOperand h ih => exact operand_block (h.lead rfl) ih
  -- Operators
  | unary hop _ hp ih => exact operand_unary hop ih hp
  | deref hop _ hp hend ih => exact operand_deref hop ih hp hend
  | projAssign hop _ hp heq _ ihtarget ihvalue => exact operand_projAssign hop ihtarget hp heq ihvalue
  | binary _ hop hp _ hq ihleft ihright => exact operand_binary ihleft hop hp ihright hq
  | call _ hargs ihcallee ihargs => exact operand_call ihcallee (hargs.lead rfl) ihargs
  | args hopen hlist hclose ihlist =>
    exact Derives.element (.args hopen hlist hclose) rfl (reads_args hopen ihlist hlist.le hclose)
  | index _ hopen hindices hsome hclose ihbase ihindices =>
    exact operand_index ihbase hopen ihindices hsome hindices.le hclose
  | field _ hdot hname ih => exact operand_field ih hdot hname
  | tupleIndex _ hdot hindex ih => exact operand_tupleIndex ih hdot hindex
  | floatIndex _ hdot hindex htext ih => exact operand_floatIndex ih hdot hindex htext
  | propagate _ hmark ih => exact operand_propagate ih hmark
  | cast _ hword _ ihbase ihtype => exact operand_cast ihbase hword ihtype
  | full _ hend ih => exact ih.full hend
  -- Blocks and their kin
  | block hopen hstmts hclose ihstmts =>
    exact Derives.element (.block hopen hstmts hclose) rfl
      (reads_block hopen ihstmts hstmts.le hclose)
  | unsafeBlock hword hopen hstmts hclose ihstmts =>
    exact Derives.element (.unsafeBlock hword hopen hstmts hclose) rfl
      (reads_unsafeBlock hword hopen ihstmts hstmts.le hclose)
  | ifExpr hword hcond hbody helse ihcond ihbody ihelse =>
    exact Derives.element (.ifExpr hword hcond hbody helse) rfl
      (reads_ifExpr hword ihcond ihbody ihelse)
  | ifBranch h ih =>
    exact Derives.element (.ifBranch h) rfl (reads_ifBranch (h.lead rfl) ih.runs)
  | blockBranch h ih =>
    exact Derives.element (.blockBranch h) rfl (reads_blockBranch (h.lead rfl) ih.runs)
  | whileStmt hword hcond hbody ihcond ihbody =>
    exact Derives.element (.whileStmt hword hcond hbody) rfl (reads_whileStmt hword ihcond ihbody)
  | matchExpr hword hscrutinee hopen harms hclose ihscrutinee iharms =>
    exact Derives.element (.matchExpr hword hscrutinee hopen harms hclose) rfl
      (reads_matchExpr hword ihscrutinee hopen iharms harms.le hclose)
  | arm hpat harrow hvalue hend ihpat ihvalue =>
    exact Derives.element (.arm hpat harrow hvalue hend) rfl (reads_arm ihpat harrow ihvalue hend)
  -- Statements
  | exprStmt hstart h hsemi ih =>
    exact Derives.element (.exprStmt hstart h hsemi) rfl (reads_exprStmt hstart ih hsemi)
  | letStmt hword hregime hname htype hinit hsemi ihtype ihinit =>
    exact Derives.element (.letStmt hword hregime hname htype hinit hsemi) rfl
      (reads_letStmt hword hregime hname ihtype ihinit hsemi)
  | ifStmt h ih => exact Derives.element (.ifStmt h) rfl (reads_ifStmt (h.lead rfl) ih)
  | forStmt hword hregime hname hin hiterable hbody ihiterable ihbody =>
    exact Derives.element (.forStmt hword hregime hname hin hiterable hbody) rfl
      (reads_forStmt hword hregime hname hin ihiterable ihbody)
  | loopStmt h ih => exact Derives.element (.loopStmt h) rfl (reads_loopStmt (h.lead rfl) ih)
  | blockStmt h ih => exact Derives.element (.blockStmt h) rfl (reads_blockStmt (h.lead rfl) ih)
  | retStmt hword h hsemi ih =>
    exact Derives.element (.retStmt hword h hsemi) rfl (reads_retStmt hword ih hsemi)
  | breakStmt hword hsemi =>
    exact Derives.element (.breakStmt hword hsemi) rfl (reads_breakStmt hword hsemi)
  | continueStmt hword hsemi =>
    exact Derives.element (.continueStmt hword hsemi) rfl (reads_continueStmt hword hsemi)
  | unsafeStmt h ih => exact Derives.element (.unsafeStmt h) rfl (reads_unsafeStmt (h.lead rfl) ih)
  -- Generic parameters, parameters, fields, and variants
  | genericParam hname hend =>
    exact ⟨Derives.element (.genericParam hname hend) rfl (reads_genericParam hname hend), hname⟩
  | boundedParam hname hcolon htype ihtype =>
    exact ⟨Derives.element (.boundedParam hname hcolon htype) rfl
      (reads_boundedParam hname hcolon ihtype), hname⟩
  | noGenerics hend => exact .inl ⟨hend, rfl, rfl⟩
  | generics hopen hlist hclose ihlist =>
    exact .inr ⟨_, _, hopen, ihlist, hlist.le, hclose, rfl, rfl⟩
  | param hregime hname hcolon htype ihtype =>
    exact Derives.element (.param hregime hname hcolon htype) rfl
      (reads_param hregime hname hcolon ihtype)
  | selfParam hregime hname hself hend =>
    exact Derives.element (.selfParam hregime hname hself hend) rfl
      (reads_selfParam hregime hname hself hend)
  | params hopen hlist hclose ihlist =>
    exact Derives.element (.params hopen hlist hclose) rfl
      (reads_params hopen ihlist hlist.le hclose)
  | structField hregime hname hcolon htype ihtype =>
    exact Derives.element (.structField hregime hname hcolon htype) rfl
      (reads_structField hregime hname hcolon ihtype)
  | unitVariant hname hend =>
    exact Derives.element (.unitVariant hname hend) rfl (reads_unitVariant hname hend)
  | valuedVariant hname heq hvalue ihvalue =>
    exact Derives.element (.valuedVariant hname heq hvalue) rfl
      (reads_valuedVariant hname heq ihvalue)
  | tupleVariant hname hopen htypes hclose ihtypes =>
    exact Derives.element (.tupleVariant hname hopen htypes hclose) rfl
      (reads_tupleVariant hname hopen ihtypes htypes.le hclose)
  | structVariant hname hopen hfields hclose ihfields =>
    exact Derives.element (.structVariant hname hopen hfields hclose) rfl
      (reads_structVariant hname hopen ihfields hfields.le hclose)
  -- Functions
  | blockBody _ ih => exact .inl ⟨rfl, ih⟩
  | noBody hsemi => exact .inr ⟨rfl, hsemi, rfl, rfl⟩
  | fn hflag hword hregime hname _ _ _ hbody ihgenerics ihparams ihreturn ihbody =>
    exact fn_at hflag hword hregime hname ihgenerics ihparams ihreturn ihbody hbody.body_start
  | method hdocs h ih =>
    have hle := hdocs.le
    have hstarts := (Derives.method hdocs h).starts rfl
    exact ⟨(Derives.method hdocs h).le_lt.2 rfl, hstarts, _, _, hdocs, h.le, ih⟩
  -- Declarations
  | fnDecl _ ih => exact reads_fnDecl ih
  | structDecl hword hname _ hopen hfields hclose ihgenerics ihfields =>
    exact reads_structDecl hword hname ihgenerics hopen ihfields hfields.le hclose
  | enumDecl hword hname _ hopen hvariants hclose ihgenerics ihvariants =>
    exact reads_enumDecl hword hname ihgenerics hopen ihvariants hvariants.le hclose
  | unionDecl hword hname _ hopen hfields hclose ihgenerics ihfields =>
    exact reads_unionDecl hword hname ihgenerics hopen ihfields hfields.le hclose
  | modDecl hword hname hopen hitems hclose ihitems =>
    exact reads_modDecl hword hname hopen ihitems hitems.le hclose
  | modDeclFile hword hname hsemi => exact reads_modDeclFile hword hname hsemi
  | useDecl hword hname hpath hsemi =>
    exact reads_use hword hname hpath (.inl (by rw [hsemi]; decide))
      (useTail_nil (by rw [hsemi]; decide)) le_rfl hsemi
  | useGlob hword hname hpath hsep hstar hsemi =>
    exact reads_use hword hname hpath (.inr hstar) (useTail_glob hsep hstar) (by omega) hsemi
  | useAlias hword hname hpath has halias hsemi =>
    exact reads_use hword hname hpath (.inl (by rw [has]; decide)) (useTail_alias has halias)
      (by omega) hsemi
  | constDecl hword hname hcolon _ heq _ hsemi ihtype ihvalue =>
    exact reads_constDecl hword hname hcolon ihtype heq ihvalue hsemi
  | traitDecl hword hname _ hopen hmethods hclose ihgenerics ihmethods =>
    exact reads_traitDecl hword hname ihgenerics hopen ihmethods hmethods.le hclose
  | implDecl hword _ _ hopen hmethods hclose ihgenerics ihtype ihmethods =>
    exact reads_implDecl hword ihgenerics (.inl ⟨_, ihtype, by rw [hopen]; decide, rfl⟩) hopen
      ihmethods hmethods.le hclose
  | implTrait hword _ _ hfor _ hopen hmethods hclose ihgenerics ihtrait ihtype ihmethods =>
    exact reads_implDecl hword ihgenerics (.inr ⟨_, _, _, ihtrait, hfor, ihtype, rfl⟩) hopen
      ihmethods hmethods.le hclose
  | item hdocs hpub h ih =>
    refine Derives.element (.item hdocs hpub h) rfl (reads_item hdocs ?_ hpub h.decl_start.2.2 ih
      (h.le_lt.2 rfl))
    rcases hpub.start with hk | rfl
    · rw [hk]; decide
    · exact h.decl_start.1
  | file hdocs hitems heof ihitems =>
    refine reads_file hdocs ?_ ihitems hitems.le heof
    cases hitems with
    | noSeq => rw [heof]; decide
    | moreSeq h => exact h.item_start
  -- Options and lists
  | absent hend => exact .inl ⟨hend, rfl, rfl⟩
  | present hmark _ _ ih => exact .inr ⟨_, hmark, ih.readAs, rfl⟩
  | noCommas => exact .nil
  | lastCommas _ ih => exact .last ih.readAs
  | moreCommas _ hcomma _ ih ihrest => exact .cons ih.readAs hcomma ihrest
  | noList => exact .nil
  | lastList _ ih => exact .last ih.readAs
  | moreList _ hcomma _ ih ihrest => exact .cons ih.readAs hcomma ihrest
  | noSeq => exact .nil
  | moreSeq _ _ ih ihrest => exact .cons ih.readAs ihrest

/-! ### Files -/

variable {tokens : List Token} {lexErrors : List LexerError} {source : Bytes}
  {interner : StringInterner}

theorem initialState_before : Before (.fresh tokens lexErrors source) true 0
    (initialState (.fresh tokens lexErrors source) interner) :=
  ⟨rfl, rfl, rfl, rfl, (PState.Valid.initial tokens lexErrors source interner).ordered⟩

/-- A file of the grammar is parsed with nothing reported, and the root stands for its tree. -/
theorem parse_of_derives (h : Derives (.fresh tokens lexErrors source) true .file 0 j [tr])
    (hn : enough tokens ≤ n) :
    ∃ r s, parse n (.fresh tokens lexErrors source) interner = .ok (r, s) ∧ r.errors = [] ∧
      s.Denotes r.root tr.stored := by
  have hinside : j ≤ tokens.length := h.inside (Nat.zero_le _)
  have hfile : Runs _ true parseSourceFile 1 0 j tr := h.reading
  unfold enough at hn
  obtain ⟨root, s, hrun, hs⟩ := hfile n (by omega) _ initialState_before
  refine ⟨⟨s.pool, root, s.errors⟩, s, ?_, hs.errors, hs.denotes⟩
  unfold parse
  rw [hrun]

end Eter.Parser
