import Javelin.Parse.Statements
import Javelin.Proofs.Parse.ExpressionRules

/-!
# The rules for statements

What these rules do to the state, and that their trees are unmarked.

1. Blocks, local types and local variables.
2. Statements by their first token.
3. Constructor calls.
4. Switches and patterns.
-/

namespace Javelin.Parse

section

variable {v : Setting} {n : Nat} {pre : Token → Prop} {r : Nat} {g : Grammar}

/-! ## Blocks -/

/-- An unmarked block with the given number. -/
def NewBlock (id : Nat) (b : Block) : Prop := (Node.ofBlock b).Unmarked ∧ b.info.id = id

theorem looks_emptyBlock : Looks v n pre r emptyBlock fun b => (Node.ofBlock b).Unmarked := by
  unfold emptyBlock
  refine .bind reads_startPos.looks fun start _ => .bind (looks_newInfo _) fun i hi => .pure ?_
  exact Node.unmarked_block.2 ⟨hi, by simp⟩

theorem moves_finishBlock {m : Mode} {b : Block} (hb : (Node.ofBlock b).Unmarked) :
    Moves v n m pre 0 r (finishBlock b) fun b => (Node.ofBlock b).Unmarked := by
  unfold finishBlock
  refine .read (reads_spanFrom _) fun span => .pure ?_
  obtain ⟨hflags, hstmts⟩ := Node.unmarked_block.1 hb
  exact Node.unmarked_block.2 ⟨hflags, hstmts⟩

/-- The draft that the statements belong to may be innermost or not kept at all. -/
theorem moves_blockStatements (hg : Serves n g) (hv : v.Admits .block) {x : Slot} (hx : v.Knows x)
    {wrap : Block → Draft} {id : Nat} (hwrap : ∀ b, b.info.id = id → (wrap b).slot = x)
    (fuel : Nat) :
    ∀ {k pre} {b : Block}, k ≤ n → k < 16 * fuel + 16 → NewBlock id b →
      Moves v k .strict pre 0 16 (blockStatements g wrap b fuel) (NewBlock id) := by
  induction fuel with
  | zero =>
    intro k pre b _ hk _
    exact moves_exhausted (by omega)
  | succ fuel ih =>
    intro k pre b hkn hk hb
    unfold blockStatements
    refine .read (reads_checkAny _) fun _ => .ite (fun _ => .pure hb) fun _ => ?_
    refine .round ((hg.lower hkn).blockStatement hv (by decide)) fun j s hj hs => ?_
    obtain ⟨hflags, hstmts⟩ := Node.unmarked_block.1 hb.1
    have hmore : NewBlock id { b with stmts := b.stmts ++ [s] } :=
      ⟨Node.unmarked_block.2 ⟨hflags,
        List.forall_mem_append.2 ⟨hstmts, List.forall_mem_singleton.2 hs⟩⟩, hb.2⟩
    have hknows : v.Knows (wrap { b with stmts := b.stmts ++ [s] }).slot := by
      rw [hwrap _ hmore.2]
      exact hx
    exact .look (looks_noteChild hknows) fun _ _ => ih (by omega) (by omega) hmore

/-- Statements and the brace behind them. -/
def bracedStatements (g : Grammar) (wrap : Block → Draft) (b : Block) : Parser Block := do
  let b ← blockStatements g wrap b (← remaining)
  expect_ .rbrace
  return b

theorem moves_bracedStatements (hg : Serves n g) (hv : v.Admits .block) {x : Slot} (hx : v.Knows x)
    {wrap : Block → Draft} {id : Nat} (hwrap : ∀ b, b.info.id = id → (wrap b).slot = x) {b : Block}
    (hb : NewBlock id b) :
    Moves v n .strict pre 0 16 (bracedStatements g wrap b) (NewBlock id) :=
  .loop (fun fuel _ hk hfuel => moves_blockStatements hg hv hx hwrap fuel hk hfuel hb)
    fun _ hb => .expect (by decide) (.pure hb)

theorem moves_blockRule (hg : Serves n g) (hv : v.Admits .block) (track : Bool) :
    Moves v n .strict pre 1 0 (blockRule g track) fun b => (Node.ofBlock b).Unmarked := by
  unfold blockRule emptyBlock
  simp only [bind_assoc, pure_bind]
  refine .read reads_startPos fun start => .newInfo fun i hi hid => .expect (by decide) ?_
  have hb : NewBlock i.id ⟨i, []⟩ := ⟨Node.unmarked_block.2 ⟨hi, by simp⟩, rfl⟩
  have hwrap : ∀ b : Block, b.info.id = i.id → (Draft.block b).slot = ⟨i.id, .block⟩ :=
    fun b hb => congrArg (Slot.mk · .block) hb
  cases track with
  | true =>
    have hbody : Moves (v.after i.id) n .strict Any 0 16 (do
        openDraft (.block ⟨i, []⟩)
        let b ← bracedStatements g .block ⟨i, []⟩
        closeDraft (.block b)
        finishBlock b) fun b => (Node.ofBlock b).Unmarked :=
      .tracked hid hv.after (fun w hw =>
        moves_bracedStatements hg (hw.admits rfl) hw.knows hwrap hb)
        (fun b hb => hb.2) fun b hb => moves_finishBlock hb.1
    simpa only [bracedStatements, bind_assoc, pure_bind, if_true] using hbody
  | false =>
    have hbody : Moves (v.after i.id) n .strict Any 0 16 (do
        let b ← bracedStatements g .block ⟨i, []⟩
        finishBlock b) fun b => (Node.ofBlock b).Unmarked :=
      .go (moves_bracedStatements hg hv.after hid.knows hwrap hb) fun b hb => moves_finishBlock hb.1
    simpa only [bracedStatements, bind_assoc, pure_bind, Bool.false_eq_true, if_false] using hbody

theorem reads_isTypeKeywordHere : Reads isTypeKeywordHere := by
  unfold isTypeKeywordHere
  refine reads_peek.bind fun t => ?_
  split
  · exact .pure
  · exact .pure
  · exact .pure
  · exact reads_checkAt _ _
  · refine reads_read.bind fun _ => (reads_checkWord _).bind fun _ => ?_
    exact (reads_checkAt _ _).bind fun _ => .pure
  · exact .pure

theorem probes_isLocalType (hg : Serves n g) (hr : 1 ≤ r) :
    Probes v n pre r (isLocalType g) := by
  have hlook : Probes v n pre r
      (lookahead do let _ ← modifiers g; if !(← isTypeKeywordHere) then fail "class") := by
    refine probes_lookahead (.go (moves_modifiers hg hr) fun _ _ => ?_)
    refine .read reads_isTypeKeywordHere fun _ => ?_
    exact .ite (fun _ => moves_fail (.inl rfl)) fun _ => .pure trivial
  unfold isLocalType
  dsimp only
  refine .read reads_peek fun t => ?_
  split
  case h_10 =>
    exact .read (reads_checkWord _) fun _ => .read (reads_checkWord _) fun _ => .ite hlook .pure
  all_goals first | exact hlook | exact .pure

theorem probes_isLocalVar (hg : Serves n g) (hr : 2 ≤ r) : Probes v n pre r (isLocalVar g) := by
  unfold isLocalVar
  refine .read reads_peek fun t => .read reads_read fun c => .andAlso ?_
  refine probes_lookahead (.go (moves_modifiers hg (by omega)) fun _ _ => ?_)
  refine .go (hg.type hr).weak fun _ _ => .go moves_ident.weak fun _ _ => ?_
  refine .read (reads_checkAny _) fun _ => ?_
  exact .ite (fun _ => moves_fail (.inl rfl)) fun _ => .pure trivial

theorem moves_optionalInit (hg : Serves n g) :
    Moves v n .strict pre 0 16 (optionalInit g) fun o => ∀ x ∈ o, (Node.expr x).Unmarked := by
  unfold optionalInit
  refine .accept (by decide) ?_ (.pure (by simp))
  exact .go (hg.initializer (by decide)).weak fun x hx => .pure (by simpa using hx)

theorem moves_declarator (hg : Serves n g) :
    Moves v n .strict pre 1 r (declarator g) fun d => (Node.declarator d).Unmarked := by
  unfold declarator
  refine .read reads_startPos fun start => .take moves_ident fun name hname => ?_
  refine .go moves_dimCount fun dims _ => .go (moves_optionalInit hg) fun init hinit => ?_
  refine .look (looks_infoFrom start) fun i hi => .pure ?_
  exact Node.unmarked_declarator.2 ⟨hi, hname, hinit⟩

theorem moves_declaratorsFrom (hg : Serves n g) {name : Ident}
    (hname : (Node.ident name).Unmarked) : Moves v n .strict pre 0 16 (declaratorsFrom g name)
      fun ds => ∀ d ∈ ds, (Node.declarator d).Unmarked := by
  unfold declaratorsFrom
  refine .go moves_dimCount fun dims _ => .go (moves_optionalInit hg) fun init hinit => ?_
  refine .read reads_get fun s => .look (looks_newInfo _) fun i hi => ?_
  refine .go (moves_moreSeparated (by decide) (moves_declarator hg).weak) fun more hmore => .pure ?_
  exact List.forall_mem_cons.2 ⟨Node.unmarked_declarator.2 ⟨hi, hname, hinit⟩, hmore⟩

theorem moves_localVars (hg : Serves n g) (hr : 2 ≤ r) :
    Moves v n .strict pre 1 r (localVars g) fun d => (Node.ofLocals d).Unmarked := by
  unfold localVars
  refine .read reads_startPos fun start => .go (moves_modifiers hg (by omega)) fun mods hmods => ?_
  refine .take (hg.type hr) fun t ht => .look (looks_localType ht) fun t ht => ?_
  refine .go moves_ident.weak fun name hname => .go (moves_declaratorsFrom hg hname)
    fun vs hvs => ?_
  refine .look (looks_infoFrom start) fun i hi => .pure ?_
  exact Node.unmarked_locals.2 ⟨hi, by simpa using hmods, ht, hvs⟩

theorem moves_blockStatementRule (hg : Serves n g) (hv : v.Admits .block) :
    Moves v n .strict pre 1 8
    (blockStatementRule g) fun s => (Node.stmt s).Unmarked := by
  unfold blockStatementRule
  refine .read reads_startPos fun start => .look (probes_isLocalType hg (by decide)).looks
    fun _ _ => ?_
  refine .ite (fun _ => ?_) fun _ => .look (probes_isLocalVar hg (by decide)).looks fun _ _ =>
    .ite (fun _ => ?_) fun _ => hg.statement hv (by decide)
  · refine .look (looks_docBefore _) fun doc _ => .go (moves_modifiers hg (by decide))
      fun mods hmods => ?_
    refine .take (hg.typeRest start mods doc (hv.imp fun _ => Draft.Kind.hosts_type) hmods
      (by decide)) fun d hd => ?_
    refine .look (looks_newInfo _) fun i hi => .pure (.mk hi (List.forall_mem_singleton.2 ?_))
    obtain ⟨hflags, hparts⟩ := Node.unmarked_typeDecl.1 hd
    exact Node.unmarked_typeDecl.2 ⟨hflags, hparts⟩
  · refine .take (moves_localVars hg (by decide)) fun d hd => .expect (by decide) ?_
    refine .read (reads_spanFrom _) fun span => .pure ?_
    obtain ⟨hflags, hparts⟩ := Node.unmarked_locals.1 hd
    exact Node.unmarked_locals.2 ⟨hflags, hparts⟩

/-! ## Statements by their first token -/

theorem moves_inParens (hg : Serves n g) : Moves v n .strict pre 1 r (inParens g)
    fun x => (Node.expr x).Unmarked := by
  unfold inParens
  refine .expect (by decide) (.go (hg.expression (by decide)).weak fun x hx => ?_)
  exact .expect (by decide) (.pure hx)

theorem looks_notAStatement (t : Token) :
    Looks v n pre r (notAStatement t) fun _ => True :=
  looks_reportSoft _ _ _

theorem unmarked_exprStmt {i : Info} {x : Expr} (hi : i.flags = {}) (hx : (Node.expr x).Unmarked) :
    (Node.stmt (.expr i x)).Unmarked :=
  .mk hi (List.forall_mem_singleton.2 hx)

theorem moves_exprStatement (hg : Serves n g) :
    Moves v n .strict pre 1 7 (exprStatement g) fun s => (Node.stmt s).Unmarked := by
  unfold exprStatement
  refine .read reads_startPos fun start => .read reads_peek fun t => ?_
  refine .take (hg.expression (by decide)) fun x hx => .lookIf (looks_notAStatement t) ?_
  refine .expect (by decide) (.look (looks_infoFrom start) fun i hi => ?_)
  exact .pure (unmarked_exprStmt hi hx)

theorem moves_ifStatement (hg : Serves n g) (hv : v.Admits .block) {start : Position} :
    Moves v n .strict pre 0 16
    (ifStatement g start) fun s => (Node.stmt s).Unmarked := by
  unfold ifStatement
  simp only [pure_bind]
  refine .go (moves_inParens hg).weak fun c hc => .go (hg.statement hv (by decide)).weak
    fun y hy => ?_
  refine .accept (by decide) (.go (hg.statement hv (by decide)).weak fun z hz => ?_) ?_
  · refine .look (looks_infoFrom start) fun i hi => .pure (.mk hi ?_)
    simpa [Node.children, Node.ofStmt] using ⟨hc, hy, hz⟩
  · refine .look (looks_infoFrom start) fun i hi => .pure (.mk hi ?_)
    simpa [Node.children, Node.ofStmt] using ⟨hc, hy⟩

theorem moves_whileStatement (hg : Serves n g) (hv : v.Admits .block) {start : Position} :
    Moves v n .strict pre 0 16
    (whileStatement g start) fun s => (Node.stmt s).Unmarked := by
  unfold whileStatement
  refine .go (moves_inParens hg).weak fun c hc => .go (hg.statement hv (by decide)).weak
    fun b hb => ?_
  refine .look (looks_infoFrom start) fun i hi => .pure (.mk hi ?_)
  simpa [Node.children, Node.ofStmt] using ⟨hc, hb⟩

theorem moves_doStatement (hg : Serves n g) (hv : v.Admits .block) {start : Position} :
    Moves v n .strict pre 0 16
    (doStatement g start) fun s => (Node.stmt s).Unmarked := by
  unfold doStatement
  refine .go (hg.statement hv (by decide)).weak fun b hb => .expect (by decide) ?_
  refine .go (moves_inParens hg).weak fun c hc => .expect (by decide) ?_
  refine .look (looks_infoFrom start) fun i hi => .pure (.mk hi ?_)
  simpa [Node.children, Node.ofStmt] using ⟨hb, hc⟩

theorem moves_forEachVar (hg : Serves n g) :
    Moves v n .strict pre 0 16 (forEachVar g) fun d => (Node.ofLocals d).Unmarked := by
  unfold forEachVar
  refine .read reads_startPos fun start => .go (moves_modifiers hg (by decide)) fun mods hmods => ?_
  refine .go (hg.type (by decide)).weak fun t ht => .look (looks_localType ht) fun t ht => ?_
  refine .go moves_ident.weak fun name hname => .look (looks_newInfo _) fun j hj => ?_
  refine .look (looks_infoFrom start) fun i hi => .pure ?_
  refine Node.unmarked_locals.2 ⟨hi, by simpa using hmods, ht, List.forall_mem_singleton.2 ?_⟩
  exact Node.unmarked_declarator.2 ⟨hj, hname, by simp⟩

theorem moves_forInit (hg : Serves n g) : Moves v n .strict pre 0 16 (forInit g)
    fun ss => ∀ s ∈ ss, (Node.stmt s).Unmarked := by
  unfold forInit
  refine .read (reads_check _) fun _ => .ite (fun _ => .pure (by simp)) fun _ => ?_
  refine .look (probes_isLocalVar hg (by decide)).looks fun _ _ => .ite (fun _ => ?_) fun _ => ?_
  · refine .go (moves_localVars hg (by decide)).weak fun d hd => .pure ?_
    exact List.forall_mem_singleton.2 hd
  · have hitem : ∀ {pre : Token → Prop}, Moves v n .strict pre 1 16
        (do let start ← startPos; let x ← g.expression; return Stmt.expr (← infoFrom start) x)
        fun s => (Node.stmt s).Unmarked :=
      .read reads_startPos fun start => .take (hg.expression (by decide)) fun x hx =>
        .look (looks_infoFrom start) fun i hi => .pure (unmarked_exprStmt hi hx)
    exact (moves_commaSeparated hitem hitem.weak).weak

/-- What follows the condition of a for statement. -/
def forRest (g : Grammar) (start : Position) (init : List Stmt) (cond : Option Expr) :
    Parser Stmt := do
  expect_ .semicolon
  let update ← if ← check .rparen then pure [] else commaSeparated g.expression
  expect_ .rparen
  let body ← g.statement
  return .for (← infoFrom start) init cond update body

theorem moves_forRest (hg : Serves n g) (hv : v.Admits .block) {start : Position} {init : List Stmt}
    {cond : Option Expr} (hinit : ∀ s ∈ init, (Node.stmt s).Unmarked)
    (hcond : ∀ x ∈ cond, (Node.expr x).Unmarked) : Moves v n .strict pre 0 16
      (forRest g start init cond) fun s => (Node.stmt s).Unmarked := by
  have hend : ∀ xs, (∀ x ∈ xs, (Node.expr x).Unmarked) → ∀ b, (Node.stmt b).Unmarked →
      Moves v n .strict Any 0 16 (do return Stmt.for (← infoFrom start) init cond xs b)
        fun s => (Node.stmt s).Unmarked := by
    intro xs hxs b hb
    refine .look (looks_infoFrom start) fun i hi => .pure (.mk hi ?_)
    simp only [Node.children, Node.ofStmt, List.forall_mem_append, List.forall_mem_map,
      Node.forall_mem_option, List.forall_mem_singleton]
    exact ⟨⟨⟨hinit, hcond⟩, hxs⟩, hb⟩
  unfold forRest
  simp only [pure_bind]
  refine .expect (by decide) (.read (reads_check _) fun _ => .ite (fun _ => ?_) fun _ => ?_)
  · refine .expect (by decide) (.go (hg.statement hv (by decide)).weak fun b hb => ?_)
    exact hend _ (by simp) b hb
  · have hexpr : ∀ {pre : Token → Prop}, Moves v n .strict pre 1 16 g.expression
        fun x => (Node.expr x).Unmarked := hg.expression (by decide)
    refine .go (moves_commaSeparated hexpr hexpr.weak).weak fun xs hxs => .expect (by decide) ?_
    exact .go (hg.statement hv (by decide)).weak fun b hb => hend _ hxs b hb

/-- What is looked for where a variable may be declared: modifiers, a type, a name and the token
behind it. -/
def declaredBefore (g : Grammar) (k : Token.Kind) : Parser Unit := do
  let _ ← modifiers g
  let _ ← g.type
  let _ ← ident
  expect_ k

theorem probes_declaredBefore (hg : Serves n g) (hr : 2 ≤ r) {k : Token.Kind} (hk : k ≠ .eof) :
    Probes v n pre r (lookahead (declaredBefore g k)) := by
  refine probes_lookahead (m := .strict) (.go (moves_modifiers hg (by omega)) fun _ _ => ?_)
  refine .go (hg.type hr).weak fun _ _ => .go moves_ident.weak fun _ _ => ?_
  exact (moves_expect_ hk).weak

theorem moves_forStatement (hg : Serves n g) (hv : v.Admits .block) {start : Position} :
    Moves v n .strict pre 0 16
    (forStatement g start) fun s => (Node.stmt s).Unmarked := by
  unfold forStatement
  simp only [pure_bind]
  refine .expect (by decide) (.look (probes_declaredBefore hg (by decide) (by decide)).looks
    fun _ _ => .ite (fun _ => ?_) fun _ => ?_)
  · refine .go (moves_forEachVar hg) fun d hd => .expect (by decide) ?_
    refine .go (hg.expression (by decide)).weak fun x hx => .expect (by decide) ?_
    refine .go (hg.statement hv (by decide)).weak fun b hb => ?_
    refine .look (looks_infoFrom start) fun i hi => .pure (.mk hi ?_)
    simpa [Node.children, Node.ofStmt] using ⟨hd, hx, hb⟩
  · refine .go (moves_forInit hg) fun init hinit => .expect (by decide) ?_
    refine .read (reads_check _) fun _ => .ite (fun _ => ?_) fun _ => ?_
    · exact moves_forRest hg hv hinit (by simp)
    · exact .go (hg.expression (by decide)).weak fun x hx =>
        moves_forRest hg hv hinit (by simpa using hx)

theorem moves_resource (hg : Serves n g) : Moves v n .strict pre 0 16 (resource g)
    fun s => s.resourceNode.Unmarked := by
  unfold resource
  refine .look (probes_declaredBefore hg (by decide) (by decide)).looks fun _ _ =>
    .ite (fun _ => ?_) fun _ => ?_
  · refine .read reads_startPos fun start => .go (moves_modifiers hg (by decide))
      fun mods hmods => ?_
    refine .go (hg.type (by decide)).weak fun t ht => .look (looks_localType ht) fun t ht => ?_
    refine .go (moves_declarator hg).weak fun d hd => .look (looks_infoFrom start) fun i hi => ?_
    exact .pure (Node.unmarked_locals.2
      ⟨hi, by simpa using hmods, ht, List.forall_mem_singleton.2 hd⟩)
  · exact .go (hg.expression (by decide)).weak fun x hx => .pure hx

theorem moves_resourcesFrom (hg : Serves n g) (fuel : Nat) :
    ∀ {k pre} {acc : Array Stmt}, k ≤ n → k < 16 * fuel + 16 →
      (∀ s ∈ acc, s.resourceNode.Unmarked) →
      Moves v k .strict pre 0 16 (resourcesFrom g acc fuel)
        fun ss => ∀ s ∈ ss, s.resourceNode.Unmarked := by
  induction fuel with
  | zero =>
    intro k pre acc _ hk _
    exact moves_exhausted (by omega)
  | succ fuel ih =>
    intro k pre acc hkn hk hacc
    unfold resourcesFrom
    refine .read (reads_check _) fun _ => .ite (fun _ => .pure (by simpa using hacc)) fun _ => ?_
    refine .go (moves_resource (hg.lower hkn)) fun s hs => ?_
    have hmore := forall_mem_push hacc hs
    refine .acceptRound (by decide) (fun j hj => ?_) (.pure (by simpa using hmore))
    exact ih (by omega) (by omega) hmore

/-- What follows the type of a catch clause. -/
def catchRest (g : Grammar) (start paramStart : Position) (mods : Modifiers) (type : TypeNode) :
    Parser CatchClause := do
  let name ← ident
  let info ← infoFrom paramStart
  expect_ .rparen
  let body ← g.block true
  return ⟨← infoFrom start, ⟨info, some mods, some type, false, name, 0⟩, body⟩

theorem moves_catchRest (hg : Serves n g) (hv : v.Admits .block) {start paramStart : Position}
    {mods : Modifiers}
    {type : TypeNode} (hmods : (Node.modifiers mods).Unmarked) (htype : (Node.type type).Unmarked) :
    Moves v n .strict pre 0 16 (catchRest g start paramStart mods type)
      fun c => (Node.catchClause c).Unmarked := by
  unfold catchRest
  refine .go moves_ident.weak fun name hname => .look (looks_infoFrom _) fun j hj => ?_
  refine .expect (by decide) (.go (hg.block true hv (by decide)).weak fun b hb => ?_)
  refine .look (looks_infoFrom start) fun i hi => .pure (.mk hi ?_)
  have hparam : (Node.param ⟨j, some mods, some type, false, name, 0⟩).Unmarked :=
    Node.unmarked_param.2 ⟨hj, by simpa using hmods, by simpa using htype, hname⟩
  simpa [Node.children] using ⟨hparam, hb⟩

theorem moves_catchClause (hg : Serves n g) (hv : v.Admits .block) :
    Moves v n .strict pre 1 r (catchClause g) fun c => (Node.catchClause c).Unmarked := by
  unfold catchClause
  simp only [pure_bind]
  refine .read reads_startPos fun start => .expect (by decide) (.expect (by decide) ?_)
  refine .read reads_startPos fun paramStart => .go (moves_modifiers hg (by decide))
    fun mods hmods => ?_
  refine .go (hg.type (by decide)).weak fun first hfirst => .read (reads_check _) fun _ => ?_
  refine .ite (fun _ => ?_) fun _ => moves_catchRest hg hv hmods hfirst
  refine .go (moves_moreSeparated (by decide) (hg.type (by decide)).weak) fun more hmore => ?_
  refine .look (looks_infoFrom _) fun i hi => moves_catchRest hg hv hmods (.mk hi ?_)
  simpa [Node.children, Node.ofTypeNode] using ⟨hfirst, hmore⟩

/-- What follows the resources of a try statement. -/
def tryRest (g : Grammar) (start : Position) (tryToken : Token) (resources : List Stmt) :
    Parser Stmt := do
  let body ← g.block true
  let catches ← manyWhile (check .kwCatch) (catchClause g)
  let final ← if ← accept .kwFinally then pure (some (← g.block true)) else pure none
  if catches.isEmpty && final.isNone && resources.isEmpty then
    reportSoft tryToken .syntaxErrorInsertToComplete ["Finally", "TryStatement"]
  return .try (← infoFrom start) resources body catches final

theorem moves_tryRest (hg : Serves n g) (hv : v.Admits .block) {start : Position} {t : Token}
    {rs : List Stmt}
    (hrs : ∀ s ∈ rs, s.resourceNode.Unmarked) : Moves v n .strict pre 0 16 (tryRest g start t rs)
      fun s => (Node.stmt s).Unmarked := by
  have hend : ∀ {pre : Token → Prop} b, (Node.ofBlock b).Unmarked → ∀ cs,
      (∀ c ∈ cs, (Node.catchClause c).Unmarked) → ∀ f, (∀ b ∈ f, (Node.ofBlock b).Unmarked) →
      Moves v n .strict pre 0 16 (do return Stmt.try (← infoFrom start) rs b cs f)
        fun s => (Node.stmt s).Unmarked := by
    intro pre b hb cs hcs f hf
    refine .look (looks_infoFrom start) fun i hi => .pure (.mk hi ?_)
    simp only [Node.children, Node.ofStmt, List.forall_mem_append, List.forall_mem_map,
      Node.forall_mem_option, List.forall_mem_singleton]
    exact ⟨⟨⟨hrs, hb⟩, hcs⟩, hf⟩
  unfold tryRest
  simp only [pure_bind]
  refine .go (hg.block true hv (by decide)).weak fun b hb => ?_
  refine .go (moves_many (reads_check _) (moves_catchClause hg hv)) fun cs hcs => ?_
  refine .accept (by decide) (.go (hg.block true hv (by decide)).weak fun f hf => ?_) ?_
  · exact .lookIf (looks_reportSoft _ _ _) (hend b hb cs hcs _ (by simpa using hf))
  · exact .lookIf (looks_reportSoft _ _ _) (hend b hb cs hcs _ (by simp))

theorem moves_tryStatement (hg : Serves n g) (hv : v.Admits .block) {start : Position} {t : Token} :
    Moves v n .strict pre 0 16 (tryStatement g start t)
      fun s => (Node.stmt s).Unmarked := by
  unfold tryStatement
  simp only [pure_bind]
  refine .accept (by decide) ?_ (moves_tryRest hg hv (by simp))
  refine .loop (fun fuel k hk hfuel => moves_resourcesFrom hg fuel hk hfuel (by simp))
    fun rs hrs => ?_
  exact .expect (by decide) (moves_tryRest hg hv hrs)

theorem moves_optionalLabel : Moves v n .strict pre 0 r optionalLabel
    fun o => ∀ l ∈ o, (Node.ident l).Unmarked := by
  unfold optionalLabel
  refine .read (reads_check _) fun _ => .ite (fun _ => ?_) fun _ => .pure (by simp)
  exact .go moves_ident.weak fun l hl => .pure (by simpa using hl)

theorem moves_jumpStatement {make : Info → Option Ident → Stmt} {start : Position}
    (hmake : ∀ i l, i.flags = {} → (∀ n ∈ l, (Node.ident n).Unmarked) →
      (Node.stmt (make i l)).Unmarked) : Moves v n .strict pre 0 16 (jumpStatement make start)
        fun s => (Node.stmt s).Unmarked := by
  unfold jumpStatement
  refine .go moves_optionalLabel fun l hl => .expect (by decide) ?_
  exact .look (looks_infoFrom start) fun i hi => .pure (hmake i l hi hl)

theorem reads_isYieldStatement : Reads isYieldStatement := by
  unfold isYieldStatement
  refine reads_read.bind fun _ => (reads_peekAt _).bind fun _ => ?_
  exact (reads_checkWord _).bind fun _ => .pure

/-! ## Constructor calls -/

theorem moves_qualifiedSuperAhead (hg : Serves n g) (fuel : Nat) :
    ∀ {k pre}, k ≤ n → k < 16 * fuel + r →
      Moves v k .strict pre 0 r (qualifiedSuperAhead g fuel) fun _ => True := by
  induction fuel with
  | zero =>
    intro k pre _ hk
    exact moves_exhausted (by omega)
  | succ fuel ih =>
    intro k pre hkn hk
    unfold qualifiedSuperAhead
    refine .acceptRound (by decide) (fun j hj => ?_) (.fail (.inl rfl))
    refine .go (moves_accept (by decide)) fun _ _ => .ite (fun _ => ?_) fun _ => ?_
    · exact (moves_expect_ (by decide)).weak
    refine .read (reads_check _) fun _ => .ite (fun _ => ?_) fun _ => ?_
    · refine .go (moves_typeArgs (hg.lower (by omega)) false).weak fun _ _ => ?_
      exact .expect (by decide) (moves_expect_ (by decide)).weak
    · exact .go moves_ident.weak fun _ _ => ih (by omega) (by omega)

theorem probes_isConstructorCall (hg : Serves n g) :
    Probes v n pre r (isConstructorCall g) := by
  unfold isConstructorCall
  refine .read reads_peek fun t => ?_
  split
  · exact (reads_checkAt _ _).probes
  · exact (reads_checkAt _ _).probes
  · refine probes_lookahead (m := .strict) (.go (moves_typeArgs hg false).weak fun _ _ => ?_)
    refine .read (reads_checkAny _) fun _ => ?_
    exact .ite (fun _ => moves_fail (.inl rfl)) fun _ => .pure trivial
  · refine probes_lookahead (m := .strict) (.go moves_ident.weak fun _ _ => ?_)
    exact .remaining fun fuel _ hk hfuel => moves_qualifiedSuperAhead hg fuel hk hfuel
  · exact .pure

theorem moves_callQualifier {start : Position} (fuel : Nat) :
    ∀ {k pre} {x : Expr}, k < 16 * fuel + r → (Node.expr x).Unmarked →
      Moves v k .strict pre 0 r (callQualifier start x fuel) fun x => (Node.expr x).Unmarked := by
  induction fuel with
  | zero =>
    intro k pre x hk _
    exact moves_exhausted (by omega)
  | succ fuel ih =>
    intro k pre x hk hx
    unfold callQualifier
    refine .acceptRound (by decide) (fun j hj => ?_) (.pure hx)
    refine .read (reads_check _) fun _ => .ite (fun _ => .pure hx) fun _ => ?_
    refine .go moves_ident.weak fun name hname => .look (looks_newInfo _) fun i hi => ?_
    exact ih (by omega) (unmarked_field.2 ⟨hi, hx, hname⟩)

/-- What follows the type arguments of a constructor call. -/
def constructorCallRest (g : Grammar) (start : Position) (qualifier : Option Expr)
    (targs : List TypeNode) : Parser Stmt := do
  let isSuper ← accept .kwSuper
  if !isSuper then expect_ .kwThis
  let args ← arguments g
  expect_ .semicolon
  return .constructorCall (← infoFrom start) isSuper qualifier targs args

theorem moves_constructorCallRest (hg : Serves n g) {start : Position} {q : Option Expr}
    {ts : List TypeNode} (hq : ∀ x ∈ q, (Node.expr x).Unmarked)
    (hts : ∀ t ∈ ts, (Node.type t).Unmarked) : Moves v n .strict pre 1 r
      (constructorCallRest g start q ts)
      fun s => (Node.stmt s).Unmarked := by
  have hend : ∀ isSuper args, (∀ x ∈ args, (Node.expr x).Unmarked) → ∀ i, i.flags = {} →
      (Node.stmt (.constructorCall i isSuper q ts args)).Unmarked := by
    intro isSuper args hargs i hi
    refine .mk hi ?_
    simp only [Node.children, Node.ofStmt, List.forall_mem_append, List.forall_mem_map,
      Node.forall_mem_option]
    exact ⟨⟨hq, hts⟩, hargs⟩
  unfold constructorCallRest
  refine .accepted (by decide) ?_ (.expect (by decide) ?_)
  · refine .go (moves_arguments hg).weak fun args hargs => .expect (by decide) ?_
    exact .look (looks_infoFrom start) fun i hi => .pure (hend _ _ hargs i hi)
  · refine .go (moves_arguments hg).weak fun args hargs => .expect (by decide) ?_
    exact .look (looks_infoFrom start) fun i hi => .pure (hend _ _ hargs i hi)

theorem moves_constructorCall (hg : Serves n g) :
    Moves v n .strict pre 1 r (constructorCall g) fun s => (Node.stmt s).Unmarked := by
  unfold constructorCall
  simp only [pure_bind]
  refine .read reads_startPos fun start => .read (reads_check _) fun _ => .ite (fun _ => ?_)
    fun _ => ?_
  · refine .take moves_ident fun name hname => .look (looks_newInfo _) fun i hi => ?_
    refine .loop (fun fuel _ _ hfuel => moves_callQualifier fuel hfuel
      (unmarked_name.2 ⟨hi, hname⟩)) fun x hx => ?_
    have hq : ∀ y ∈ some x, (Node.expr y).Unmarked := by simpa using hx
    refine .read (reads_check _) fun _ => .ite (fun _ => ?_) fun _ => ?_
    · refine .go (moves_typeArgs hg false).weak fun ts hts => ?_
      exact (moves_constructorCallRest hg hq hts).weak
    · exact (moves_constructorCallRest hg hq (by simp)).weak
  · refine .read (reads_check _) fun _ => .ite (fun _ => ?_) fun _ => ?_
    · refine .take (moves_typeArgs hg false) fun ts hts => ?_
      exact (moves_constructorCallRest hg (by simp) hts).weak
    · exact moves_constructorCallRest hg (by simp) (by simp)

/-! ## The rule for statements -/

theorem moves_returnStatement (hg : Serves n g) {start : Position} : Moves v n .strict pre 0 16
    (returnStatement g start) fun s => (Node.stmt s).Unmarked := by
  unfold returnStatement
  simp only [pure_bind]
  refine .read (reads_check _) fun _ => .ite (fun _ => .expect (by decide) ?_) fun _ => ?_
  · refine .look (looks_infoFrom start) fun i hi => .pure (.mk hi ?_)
    simp [Node.children, Node.ofStmt]
  · refine .go (hg.expression (by decide)).weak fun x hx => .expect (by decide) ?_
    refine .look (looks_infoFrom start) fun i hi => .pure (.mk hi ?_)
    simpa [Node.children, Node.ofStmt] using hx

theorem moves_syncStatement (hg : Serves n g) (hv : v.Admits .block) {start : Position} :
    Moves v n .strict pre 0 16
    (syncStatement g start) fun s => (Node.stmt s).Unmarked := by
  unfold syncStatement
  refine .go (moves_inParens hg).weak fun x hx => .go (hg.block true hv (by decide)).weak
    fun b hb => ?_
  refine .look (looks_infoFrom start) fun i hi => .pure (.mk hi ?_)
  simpa [Node.children, Node.ofStmt] using ⟨hx, hb⟩

theorem moves_assertStatement (hg : Serves n g) {start : Position} : Moves v n .strict pre 0 16
    (assertStatement g start) fun s => (Node.stmt s).Unmarked := by
  unfold assertStatement
  simp only [pure_bind]
  refine .go (hg.expression (by decide)).weak fun x hx => ?_
  refine .accept (by decide) (.go (hg.expression (by decide)).weak fun y hy => ?_) ?_
  · refine .expect (by decide) (.look (looks_infoFrom start) fun i hi => .pure (.mk hi ?_))
    simpa [Node.children, Node.ofStmt] using ⟨hx, hy⟩
  · refine .expect (by decide) (.look (looks_infoFrom start) fun i hi => .pure (.mk hi ?_))
    simpa [Node.children, Node.ofStmt] using hx

theorem moves_keywordStatement (hg : Serves n g) (hv : v.Admits .block) {t : Token}
    {start : Position}
    (ht : t.kind ≠ .eof) : Moves v n .strict (· = t) 1 r (keywordStatement g t start)
      fun s => (Node.stmt s).Unmarked := by
  unfold keywordStatement
  refine .advance ht ?_
  split
  · refine .look (looks_infoFrom start) fun i hi => .pure (.mk hi ?_)
    simp [Node.children, Node.ofStmt]
  · exact moves_ifStatement hg hv
  · exact moves_whileStatement hg hv
  · exact moves_doStatement hg hv
  · exact moves_forStatement hg hv
  · exact moves_tryStatement hg hv
  · refine .go (moves_inParens hg).weak fun x hx => ?_
    refine .go (hg.switchBody false hv (by decide)).weak fun cs hcs => ?_
    refine .look (looks_infoFrom start) fun i hi => .pure (.mk hi ?_)
    simpa [Node.children, Node.ofStmt] using ⟨hx, hcs⟩
  · exact moves_returnStatement hg
  · exact moves_jumpStatement fun i l hi hl => .mk hi (Node.forall_mem_option.2 hl)
  · exact moves_jumpStatement fun i l hi hl => .mk hi (Node.forall_mem_option.2 hl)
  · refine .go (hg.expression (by decide)).weak fun x hx => .expect (by decide) ?_
    refine .look (looks_infoFrom start) fun i hi => .pure (.mk hi ?_)
    simpa [Node.children, Node.ofStmt] using hx
  · exact moves_syncStatement hg hv
  · exact moves_assertStatement hg

theorem ne_eof_of_contains {ks : List Token.Kind} {k : Token.Kind} (h : ks.contains k = true)
    (hks : ks.contains .eof = false) : k ≠ .eof := by
  rintro rfl
  rw [hks] at h
  cases h

theorem moves_statementRule (hg : Serves n g) (hv : v.Admits .block) :
    Moves v n .strict pre 1 7 (statementRule g) fun s => (Node.stmt s).Unmarked := by
  unfold statementRule
  refine .here fun t _ => .read reads_startPos fun start => .peek ?_
  refine .ite (fun _ => ?_) fun _ => .ite (fun hkeyword => ?_) fun _ =>
    .read (reads_peekAt _) fun _ => .ite (fun _ => ?_) fun _ =>
    .read reads_isYieldStatement fun _ => .ite (fun _ => ?_) fun _ =>
    .ite (fun hstray => ?_) fun _ => .look (probes_isConstructorCall hg).looks fun _ _ =>
    .ite (fun _ => moves_constructorCall hg) fun _ => moves_exprStatement hg
  · exact .take (hg.block true hv (by decide)) fun b hb => .pure hb
  · exact moves_keywordStatement hg hv (ne_eof_of_contains hkeyword (by decide))
  · refine .take moves_ident fun l hl => .go moves_advance_any fun _ _ => ?_
    refine .go (hg.statement hv (by decide)).weak fun b hb => ?_
    refine .look (looks_infoFrom start) fun i hi => .pure (.mk hi ?_)
    simpa [Node.children, Node.ofStmt] using ⟨hl, hb⟩
  · refine .go moves_advance_any fun _ _ => .take (hg.expression (by decide)) fun x hx => ?_
    refine .expect (by decide) (.look (looks_infoFrom start) fun i hi => .pure (.mk hi ?_))
    simpa [Node.children, Node.ofStmt] using hx
  · exact .fail (.inr fun u hu => hu ▸ ne_eof_of_contains hstray (by decide))

/-! ## Switches and patterns -/

theorem moves_patternRule (hg : Serves n g) :
    Moves v n .strict pre 1 2 (patternRule g) fun x => (Node.expr x).Unmarked := by
  unfold patternRule
  refine .read reads_startPos fun start => .go (moves_modifiers hg (by decide)) fun mods hmods => ?_
  refine .take (hg.type (by decide)) fun t ht => .look (looks_localType ht) fun t ht => ?_
  refine .read (reads_check _) fun _ => .ite (fun _ => ?_) fun _ => ?_
  · refine .go (moves_subPatterns hg).weak fun xs hxs => ?_
    refine .look (looks_infoFrom start) fun i hi => .pure (.mk hi ?_)
    simpa [Node.children, Node.ofExpr] using ⟨ht, hxs⟩
  · refine .go moves_ident.weak fun name hname => ?_
    refine .look (looks_infoFrom start) fun i hi => .pure (.mk hi ?_)
    simpa [Node.children, Node.ofExpr] using ⟨hmods, ht, hname⟩

theorem probes_isPatternStart (hg : Serves n g) (hr : 2 ≤ r) :
    Probes v n pre r (isPatternStart g) := by
  unfold isPatternStart
  refine probes_lookahead (m := .strict) (.go (moves_modifiers hg (by omega)) fun _ _ => ?_)
  refine .go (hg.type hr).weak fun _ _ => .read (reads_check _) fun _ => ?_
  exact .ite (fun _ => .go moves_ident.weak fun _ _ => .pure trivial) fun _ => .pure trivial

theorem moves_caseLabel (hg : Serves n g) :
    Moves v n .strict pre 1 16 (caseLabel g) fun x => (Node.expr x).Unmarked := by
  unfold caseLabel
  refine .read reads_read fun c => ?_
  refine .look (probes_isPatternStart hg (by decide)).andAlso.looks fun _ _ => ?_
  exact .ite (fun _ => hg.pattern (by decide)) fun _ => .untracked (hg.conditional rfl (by decide))

theorem moves_caseLabelOrDefault (hg : Serves n g) : Moves v n .strict pre 1 16
    (caseLabelOrDefault g) fun o => ∀ x ∈ o, (Node.expr x).Unmarked := by
  unfold caseLabelOrDefault
  refine .accept (by decide) (.pure (by simp)) ?_
  exact .take (moves_caseLabel hg) fun x hx => .pure (by simpa using hx)

theorem moves_caseHead (hg : Serves n g) : Moves v n .strict pre 1 r (caseHead g)
    fun x => (∀ y ∈ x.1, (Node.expr y).Unmarked) ∧ ∀ y ∈ x.2.2, (Node.expr y).Unmarked := by
  unfold caseHead
  simp only [pure_bind]
  refine .accept (by decide) (.pure (by simp)) (.acceptNot (by decide) ?_ (.fail (.inl rfl)))
  have hlabel : ∀ {pre : Token → Prop}, Moves v n .strict pre 1 16 (caseLabelOrDefault g) fun o =>
    ∀ x ∈ o, (Node.expr x).Unmarked := moves_caseLabelOrDefault hg
  refine .go (moves_commaSeparated hlabel hlabel.weak).weak fun os hos => ?_
  have hlabels : ∀ x ∈ os.filterMap id, (Node.expr x).Unmarked := by
    intro x hx
    obtain ⟨o, ho, rfl⟩ := List.mem_filterMap.1 hx
    exact hos _ ho x rfl
  refine .read (reads_checkWord _) fun _ => .ite (fun _ => ?_) fun _ => ?_
  · refine .go moves_advance_any fun _ _ => .go (hg.expression (by decide)).weak
      fun x hx => .pure ?_
    exact ⟨hlabels, by simpa using hx⟩
  · exact .pure ⟨hlabels, by simp⟩

theorem moves_arrowBody (hg : Serves n g) (hv : v.Admits .block) (isExpr : Bool) :
    Moves v n .strict pre 1 16
    (arrowBody g isExpr) fun s => (Node.stmt s).Unmarked := by
  unfold arrowBody
  refine .read reads_startPos fun start => .read (reads_check _) fun _ => .ite (fun _ => ?_)
    fun _ => ?_
  · exact .take (hg.block _ hv (by decide)) fun b hb => .pure hb
  refine .read (reads_check _) fun _ => .ite (fun _ => hg.statement hv (by decide)) fun _ => ?_
  refine .take (hg.expression (by decide)) fun x hx => .expect (by decide) ?_
  refine .ite (fun _ => ?_) fun _ => .ite (fun _ => ?_) fun _ => ?_
  · refine .look (looks_infoFrom start) fun i hi => .pure (.mk hi ?_)
    simpa [Node.children, Node.ofStmt] using hx
  · refine .read reads_previous fun t => .look (looks_notAStatement t) fun _ _ => ?_
    exact .look (looks_infoFrom start) fun i hi => .pure (unmarked_exprStmt hi hx)
  · exact .look (looks_infoFrom start) fun i hi => .pure (unmarked_exprStmt hi hx)

theorem unmarked_switchCase {i : Info} {xs : List Expr} {isDefault isArrow : Bool}
    {guard : Option Expr} {body : List Stmt} (hi : i.flags = {})
    (hxs : ∀ x ∈ xs, (Node.expr x).Unmarked) (hguard : ∀ x ∈ guard, (Node.expr x).Unmarked)
    (hbody : ∀ s ∈ body, (Node.stmt s).Unmarked) :
    (Node.switchCase ⟨i, xs, isDefault, guard, isArrow, body⟩).Unmarked := by
  refine .mk hi ?_
  simp only [Node.children, List.forall_mem_append, List.forall_mem_map, Node.forall_mem_option]
  exact ⟨⟨hxs, hguard⟩, hbody⟩

theorem moves_switchCase (hg : Serves n g) (hv : v.Admits .block) (isExpr : Bool) :
    Moves v n .strict pre 1 r
    (switchCase g isExpr) fun c => (Node.switchCase c).Unmarked := by
  unfold switchCase
  refine .read reads_startPos fun start => .take (moves_caseHead hg) fun x hx => ?_
  refine .accept (by decide) (.go (moves_arrowBody hg hv isExpr).weak fun s hs => ?_) ?_
  · refine .look (looks_infoFrom start) fun i hi => .pure ?_
    exact unmarked_switchCase hi hx.1 hx.2 (List.forall_mem_singleton.2 hs)
  · have htest : Reads do return !(← checkAny [.kwCase, .kwDefault, .rbrace, .eof]) :=
      (reads_checkAny _).bind fun _ => .pure
    refine .expect (by decide) ?_
    refine .go (moves_many htest (hg.blockStatement hv (by decide))) fun ss hss => ?_
    exact .look (looks_infoFrom start) fun i hi => .pure (unmarked_switchCase hi hx.1 hx.2 hss)

theorem moves_switchBodyRule (hg : Serves n g) (hv : v.Admits .block) (isExpr : Bool) :
    Moves v n .strict pre 1 0
    (switchBodyRule g isExpr)
      fun cs => ∀ c ∈ cs, (Node.switchCase c).Unmarked := by
  have htest : Reads do return !(← checkAny [.rbrace, .eof]) :=
    (reads_checkAny _).bind fun _ => .pure
  unfold switchBodyRule
  refine .expect (by decide) (.inSwitch ?_)
  refine .go (moves_many htest (moves_switchCase hg hv isExpr)) fun cs hcs => ?_
  exact .expect (by decide) (.pure hcs)

end

end Javelin.Parse
