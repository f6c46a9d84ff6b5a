import Javelin.Parse.Declarations
import Javelin.Proofs.Parse.StatementRules

/-!
# The rules for declarations

What these rules do to the state, and that their trees are unmarked. With that the circle is closed:
a grammar of `n` steps is not exhausted with a budget of `n` (`serves_grammar`).

1. Headers of types and enum constants.
2. Members and bodies of types.
3. The closed grammar.
4. Source files.
-/

namespace Javelin.Parse

section

variable {v : Setting} {n : Nat} {pre : Token → Prop} {r : Nat} {g : Grammar} {num : Nat}

/-! ## Types -/

theorem isWord_ne_eof {t : Token} {w : Text} (h : t.isWord w = true) : t.kind ≠ .eof := by
  intro heof
  simp [Token.isWord, heof] at h

theorem moves_typeKindAndName : Moves v n .strict pre 1 r typeKindAndName
    fun x => (Node.ident x.2).Unmarked := by
  have hend : ∀ {pre : Token → Prop} kind, Moves v n .strict pre 0 16
      (do return ((kind : TypeKind), ← ident))
      fun x => (Node.ident x.2).Unmarked :=
    fun kind => .go moves_ident.weak fun name hname => .pure hname
  unfold typeKindAndName
  simp only [pure_bind]
  refine .accept (by decide) (hend _)
    (.accept (by decide) (hend _) (.accept (by decide) (hend _) ?_))
  refine .accept (by decide) (.expect (by decide) (hend _)) (.here fun t _ => .checkWord ?_)
  exact .ite (fun hword => .advance (isWord_ne_eof hword) (hend _)) fun _ => .fail (.inl rfl)

/-- An unmarked type declaration with the given number. -/
def NewType (num : Nat) (d : TypeDecl) : Prop := (Node.typeDecl d).Unmarked ∧ d.info.id = num

theorem NewType.slot {d : TypeDecl} (hd : NewType num d) : (Draft.type d).slot = ⟨num, .type⟩ :=
  congrArg (Slot.mk · .type) hd.2

theorem moves_typeClauses (hg : Serves n g) (fuel : Nat) :
    ∀ {k pre} {d : TypeDecl}, k ≤ n → k < 16 * fuel + 16 → NewType num d →
      Moves v k .strict pre 0 16 (typeClauses g d fuel) (NewType num) := by
  induction fuel with
  | zero =>
    intro k pre d _ hk _
    exact moves_exhausted (by omega)
  | succ fuel ih =>
    intro k pre d hkn hk hd
    obtain ⟨hi, hmods, hname, hps, hcs, hsuper, hfaces, hpermits, hparts⟩ :=
      Node.unmarked_typeDecl.1 hd.1
    have hlist : ∀ {j} {pre : Token → Prop}, j ≤ k → Moves v j .strict pre 0 16 (typeList g)
        fun ts => ∀ t ∈ ts, (Node.type t).Unmarked :=
      fun hj => (moves_typeList (hg.lower (by omega)) (by decide)).weak
    have hmore : ∀ ts, (∀ t ∈ ts, (Node.type t).Unmarked) →
        NewType num { d with interfaces := d.interfaces ++ ts } := fun ts hts =>
      ⟨Node.unmarked_typeDecl.2 ⟨hi, hmods, hname, hps, hcs, hsuper,
        List.forall_mem_append.2 ⟨hfaces, hts⟩, hpermits, hparts⟩, hd.2⟩
    unfold typeClauses
    refine .acceptIf (by decide) (fun j hj => .ite (fun _ => ?_) fun _ => ?_)
      (.acceptIf (by decide) (fun j hj => ?_) (.here fun t _ => .checkWord ?_))
    · exact .go (hlist (by omega)) fun ts hts => ih (by omega) (by omega) (hmore ts hts)
    · refine .go (moves_classType (hg.lower (k := j) (by omega)) (by decide) false).weak
        fun t ht => ?_
      refine ih (by omega) (by omega) ⟨?_, hd.2⟩
      exact Node.unmarked_typeDecl.2
        ⟨hi, hmods, hname, hps, hcs, by simpa using ht, hfaces, hpermits, hparts⟩
    · exact .go (hlist (by omega)) fun ts hts => ih (by omega) (by omega) (hmore ts hts)
    · refine .ite (fun hword => ?_) fun _ => .pure hd
      refine .round (moves_advance (isWord_ne_eof hword)) fun j _ hj _ => ?_
      refine .go (hlist (by omega)) fun ts hts => ih (by omega) (by omega) ⟨?_, hd.2⟩
      exact Node.unmarked_typeDecl.2 ⟨hi, hmods, hname, hps, hcs, hsuper, hfaces,
        List.forall_mem_append.2 ⟨hpermits, hts⟩, hparts⟩

theorem moves_typeHeaderRest (hg : Serves n g) {d : TypeDecl} (hd : NewType num d) :
    Moves v n .strict pre 0 16 (typeHeaderRest g d) (NewType num) := by
  obtain ⟨hi, hmods, hname, -, -, hparts⟩ := Node.unmarked_typeDecl.1 hd.1
  have hend : ∀ ps, (∀ p ∈ ps, (Node.typeParam p).Unmarked) → ∀ cs,
      (∀ p ∈ cs, (Node.param p).Unmarked) →
      NewType num { d with typeParams := ps, components := cs } := fun ps hps cs hcs =>
    ⟨Node.unmarked_typeDecl.2 ⟨hi, hmods, hname, hps, hcs, hparts⟩, hd.2⟩
  have hparams : ∀ {pre : Token → Prop}, Moves v n .strict pre 0 16 (parenthesized (param g))
    fun ps => ∀ p ∈ ps, (Node.param p).Unmarked :=
    (moves_parenthesized (moves_param hg (by decide))).weak
  unfold typeHeaderRest
  simp only [pure_bind]
  have hrest : ∀ {pre : Token → Prop} ps, (∀ p ∈ ps, (Node.typeParam p).Unmarked) → ∀ cs,
      (∀ p ∈ cs, (Node.param p).Unmarked) → Moves v n .strict pre 0 16
        (do typeClauses g { d with typeParams := ps, components := cs } (← remaining))
        (NewType num) := fun ps hps cs hcs =>
    .remaining fun fuel _ hk hfuel => moves_typeClauses hg fuel hk hfuel (hend ps hps cs hcs)
  refine .read (reads_check _) fun _ => .ite (fun _ => ?_) fun _ => .ite (fun _ => ?_) fun _ => ?_
  · refine .go (moves_typeParams hg).weak fun ps hps => .ite (fun _ => ?_) fun _ => ?_
    · exact .go hparams fun cs hcs => hrest ps hps cs hcs
    · exact hrest ps hps [] (by simp)
  · exact .go hparams fun cs hcs => hrest [] (by simp) cs hcs
  · exact hrest [] (by simp) [] (by simp)

theorem unmarked_constant {i : Info} {annots : List Annot} {name : Ident} {args : List Expr}
    {body : Option TypeDecl} {doc : Option Comment} (hi : i.flags = {})
    (hannots : ∀ a ∈ annots, (Node.annot a).Unmarked) (hname : (Node.ident name).Unmarked)
    (hargs : ∀ x ∈ args, (Node.expr x).Unmarked) (hbody : ∀ d ∈ body, (Node.typeDecl d).Unmarked) :
    (Node.constant ⟨i, annots, name, args, body, doc⟩).Unmarked := by
  refine .mk hi ?_
  simp only [Node.children, List.forall_mem_append, List.forall_mem_map, Node.forall_mem_option,
    List.forall_mem_singleton]
  exact ⟨⟨⟨hannots, hname⟩, hargs⟩, hbody⟩

theorem moves_enumConstant (hg : Serves n g) :
    Moves v n .strict pre 1 16 (enumConstant g) fun c => (Node.constant c).Unmarked := by
  unfold enumConstant
  simp only [pure_bind]
  refine .read reads_startPos fun start => .look (looks_docBefore _) fun doc _ => ?_
  refine .go (moves_annotsHere hg (by decide)) fun annots hannots => .take moves_ident
    fun name hname => ?_
  refine .read (reads_check _) fun _ => .ite (fun _ => ?_) fun _ => ?_
  · refine .go (moves_arguments hg).weak fun args hargs => ?_
    refine .go (.untracked (moves_anonymousBody hg rfl)) fun body hbody => ?_
    refine .look (looks_infoFrom start) fun i hi => .pure ?_
    exact unmarked_constant hi hannots hname hargs hbody
  · refine .go (.untracked (moves_anonymousBody hg rfl)) fun body hbody => ?_
    refine .look (looks_infoFrom start) fun i hi => .pure ?_
    exact unmarked_constant hi hannots hname (by simp) hbody

theorem moves_enumConstantsFrom (hg : Serves n g) (fuel : Nat) :
    ∀ {k pre} {acc : Array EnumConstant}, k ≤ n → k < 16 * fuel + 16 →
      (∀ c ∈ acc, (Node.constant c).Unmarked) →
      Moves v k .strict pre 0 16 (enumConstantsFrom g acc fuel)
        fun cs => ∀ c ∈ cs, (Node.constant c).Unmarked := by
  induction fuel with
  | zero =>
    intro k pre acc _ hk _
    exact moves_exhausted (by omega)
  | succ fuel ih =>
    intro k pre acc hkn hk hacc
    unfold enumConstantsFrom
    refine .read (reads_checkAny _) fun _ => .ite (fun _ => .pure (by simpa using hacc)) fun _ => ?_
    refine .go (moves_enumConstant (hg.lower hkn)).weak fun c hc => ?_
    have hmore := forall_mem_push hacc hc
    refine .acceptRound (by decide) (fun j hj => ?_) (.pure (by simpa using hmore))
    exact ih (by omega) (by omega) hmore

theorem moves_enumConstants (hg : Serves n g) : Moves v n .strict pre 0 16 (enumConstants g)
    fun cs => ∀ c ∈ cs, (Node.constant c).Unmarked := by
  unfold enumConstants
  refine .loop (fun fuel k hk hfuel => moves_enumConstantsFrom hg fuel hk hfuel (by simp))
    fun cs hcs => ?_
  refine .read (reads_check _) fun _ => .ite (fun _ => .expect (by decide) (.pure hcs)) fun _ => ?_
  exact .pure hcs

/-! ## Members -/

theorem moves_initializerBlock (hg : Serves n g) (hv : v.Admits .initializer) :
    Moves v n .strict pre 1 r (initializerBlock g) fun m => (Node.ofMember m).Unmarked := by
  unfold initializerBlock
  refine .read reads_startPos fun start => .newInfo fun i hi hid => ?_
  refine .go (moves_accept (by decide)) fun isStatic _ => .look looks_emptyBlock fun b hb => ?_
  have hwrap : ∀ body : Block, body.info.id = b.info.id →
      (Draft.initializer i isStatic body).slot = ⟨i.id, .initializer⟩ := fun _ _ => rfl
  have hbody : Moves (v.after i.id) n .strict Any 0 16 (do
      openDraft (.initializer i isStatic b)
      let body ← bracedStatements g (.initializer i isStatic) b
      closeDraft (.initializer i isStatic body)
      let body ← finishBlock body
      let span ← spanFrom start
      return .initializer (i.withSpan span) isStatic body) fun m => (Node.ofMember m).Unmarked := by
    refine .tracked hid hv.after (fun w hw => moves_bracedStatements hg (hw.admits rfl) hw.knows
      hwrap ⟨hb, rfl⟩) (fun _ _ => rfl) fun b hb => ?_
    refine .go (moves_finishBlock hb.1) fun b hb => .read (reads_spanFrom _) fun span => ?_
    exact .pure (.mk hi (List.forall_mem_singleton.2 hb))
  exact .expect (by decide) (by simpa only [bracedStatements, bind_assoc, pure_bind] using hbody)

theorem moves_receiverQualifier {m : Mode} :
    Moves v n m pre 0 r receiverQualifier fun _ => True := by
  exact moves_discard (moves_manyWhile tells_checkBoth (.here fun t ht => moves_skipBrackets
    (by rw [ht]; decide)))

theorem probes_isReceiver (hg : Serves n g) (hr : 2 ≤ r) : Probes v n pre r (isReceiver g) := by
  unfold isReceiver
  refine probes_lookahead (m := .strict) (.go (moves_annotsHere hg (by omega)) fun _ _ => ?_)
  refine .go (hg.type hr).weak fun _ _ => .go moves_receiverQualifier fun _ _ => ?_
  exact (moves_expect_ (by decide)).weak

theorem moves_receiverParam (hg : Serves n g) (hr : 2 ≤ r) : Moves v n .strict pre 1 r
    (receiverParam g) fun p => (Node.param p).Unmarked := by
  unfold receiverParam
  refine .read reads_startPos fun start => .go (moves_modifiers hg (by omega)) fun mods hmods => ?_
  refine .take (hg.type hr) fun t ht => .go moves_receiverQualifier fun _ _ => ?_
  refine .go (moves_expect (by decide)).weak fun t _ => .look (looks_identToken t _)
    fun name hname => ?_
  refine .look (looks_infoFrom start) fun i hi => .pure ?_
  exact Node.unmarked_param.2 ⟨hi, by simpa using hmods, by simpa using ht, hname⟩

theorem moves_formalParam (hg : Serves n g) (hr : 2 ≤ r) : Moves v n .strict pre 1 r
    (formalParam g) fun x => (Node.param (x.elim id id)).Unmarked := by
  unfold formalParam
  refine .look (probes_isReceiver hg hr).looks fun _ _ => .ite (fun _ => ?_) fun _ => ?_
  · exact .take (moves_receiverParam hg hr) fun p hp => .pure hp
  · exact .take (moves_param hg hr) fun p hp => .pure hp

/-- An unmarked method with the given number. -/
def NewMethod (num : Nat) (d : MethodDecl) : Prop := (Node.method d).Unmarked ∧ d.info.id = num

/-- A method of which only the header up to its parameters is known. -/
theorem newMethod_header {i : Info} {mods : Modifiers} {ps : List TypeParam} {o : Option TypeNode}
    {name : Ident} {isConstructor : Bool} {doc : Option Comment} (hi : i.flags = {})
    (hmods : (Node.modifiers mods).Unmarked) (hps : ∀ p ∈ ps, (Node.typeParam p).Unmarked)
    (ho : ∀ t ∈ o, (Node.type t).Unmarked) (hname : (Node.ident name).Unmarked) :
    NewMethod i.id { (default : MethodDecl) with
      info := i, modifiers := some mods, typeParams := ps, result := o, name, isConstructor,
      doc } := by
  refine ⟨Node.unmarked_method.2 ⟨hi, by simpa using hmods, hps, ho, hname, ?_⟩, rfl⟩
  simp [default]

theorem NewMethod.named {d : MethodDecl} {name : Ident} {isConstructor isCompact : Bool}
    (hd : NewMethod num d) (hname : (Node.ident name).Unmarked) :
    NewMethod num { d with name, isConstructor, isCompact } := by
  obtain ⟨hi, hmods, hps, hresult, -, hparts⟩ := Node.unmarked_method.1 hd.1
  exact ⟨Node.unmarked_method.2 ⟨hi, hmods, hps, hresult, hname, hparts⟩, hd.2⟩

theorem NewMethod.withDefault {d : MethodDecl} {default : Option Expr} (hd : NewMethod num d)
    (hdefault : ∀ x ∈ default, (Node.expr x).Unmarked) : NewMethod num { d with default } := by
  obtain ⟨hi, hmods, hps, hresult, hname, hreceiver, hparams, hthrows, hbody, -⟩ :=
    Node.unmarked_method.1 hd.1
  exact ⟨Node.unmarked_method.2 ⟨hi, hmods, hps, hresult, hname, hreceiver, hparams, hthrows, hbody,
    hdefault⟩, hd.2⟩

/-- The receivers, or the ordinary ones, of some parameters. -/
theorem unmarked_params {f : Param ⊕ Param → Option Param}
    (hf : ∀ x p, f x = some p → x.elim id id = p) {ps : List (Param ⊕ Param)}
    (hps : ∀ x ∈ ps, (Node.param (x.elim id id)).Unmarked) :
    ∀ p ∈ ps.filterMap f, (Node.param p).Unmarked := by
  intro p hp
  obtain ⟨x, hx, heq⟩ := List.mem_filterMap.1 hp
  exact hf x p heq ▸ hps x hx

theorem NewMethod.withParts {d : MethodDecl} {receiver : Option Param} {params : List Param}
    {dims : Nat} {throws : List TypeNode} (hd : NewMethod num d)
    (hreceiver : ∀ p ∈ receiver, (Node.param p).Unmarked)
    (hparams : ∀ p ∈ params, (Node.param p).Unmarked)
    (hthrows : ∀ t ∈ throws, (Node.type t).Unmarked) :
    NewMethod num { d with receiver, params, dims, throws } := by
  obtain ⟨hi, hmods, hps, hresult, hname, -, -, -, hbody, hdefault⟩ := Node.unmarked_method.1 hd.1
  exact ⟨Node.unmarked_method.2 ⟨hi, hmods, hps, hresult, hname, hreceiver, hparams, hthrows, hbody,
    hdefault⟩, hd.2⟩

theorem moves_methodRest (hg : Serves n g) {d : MethodDecl} (hd : NewMethod num d) :
    Moves v n .strict pre 1 r (methodRest g d) (NewMethod num) := by
  unfold methodRest
  simp only [pure_bind]
  refine .take (moves_parenthesized (moves_formalParam hg (by decide))) fun ps hparams => ?_
  generalize hreceivers : List.filterMap _ ps = receivers
  generalize hothers : List.filterMap _ ps = others
  have hreceiver : ∀ p ∈ receivers, (Node.param p).Unmarked :=
    hreceivers ▸ unmarked_params (by rintro (_ | _) p h <;> cases h; rfl) hparams
  have hother : ∀ p ∈ others, (Node.param p).Unmarked :=
    hothers ▸ unmarked_params (by rintro (_ | _) p h <;> cases h; rfl) hparams
  have hlast : ∀ p ∈ receivers.getLast?, (Node.param p).Unmarked :=
    fun p hp => hreceiver p (List.mem_of_getLast? hp)
  refine .go (moves_manyWhile tells_check (.here fun t ht => .advance (by rw [ht]; decide)
    (moves_expect_ (by decide)).weak)) fun dims _ => ?_
  refine .accept (by decide) ?_ (.pure (hd.withParts hlast hother (by simp)))
  exact .go (moves_typeList hg (by decide)).weak fun ts hts => .pure (hd.withParts hlast hother hts)

theorem moves_methodBody (hg : Serves n g) (hv : v.Admits .method) {d : MethodDecl}
    (hd : NewMethod num d) (hid : v.Fresh num) :
    Moves v n .strict pre 1 r (methodBody g d) (NewMethod num) := by
  unfold methodBody
  refine .accept (by decide) (.pure hd) (.look looks_emptyBlock fun b hb => ?_)
  have hwrap : ∀ body : Block, body.info.id = b.info.id →
      (Draft.method { d with body := some body }).slot = ⟨d.info.id, .method⟩ := fun _ _ => rfl
  have hbody : Moves v n .strict Any 0 16 (do
      openDraft (.method { d with body := some b })
      let body ← bracedStatements g (fun b => .method { d with body := some b }) b
      closeDraft (.method { d with body := some body })
      return { d with body := some (← finishBlock body) }) (NewMethod num) := by
    refine .tracked (hd.2.symm ▸ hid) hv (fun w hw => moves_bracedStatements hg (hw.admits rfl)
      hw.knows hwrap ⟨hb, rfl⟩) (fun _ _ => rfl) fun b hb => ?_
    refine .go (moves_finishBlock hb.1) fun b hb => ?_
    obtain ⟨hi, hmods, hps, hresult, hname, hreceiver, hparams, hthrows, -, hdefault⟩ :=
      Node.unmarked_method.1 hd.1
    exact .pure ⟨Node.unmarked_method.2
      ⟨hi, hmods, hps, hresult, hname, hreceiver, hparams, hthrows,
      by simpa using hb, hdefault⟩, hd.2⟩
  exact .expect (by decide) (by simpa only [bracedStatements, bind_assoc, pure_bind] using hbody)

theorem moves_finishMethod {m : Mode} {start : Position} {d : MethodDecl} (hd : NewMethod num d) :
    Moves v n m pre 0 r (finishMethod start d)
      fun m => (Node.ofMember m).Unmarked := by
  unfold finishMethod
  refine .read (reads_spanFrom _) fun span => .pure ?_
  obtain ⟨hflags, hparts⟩ := Node.unmarked_method.1 hd.1
  exact Node.unmarked_method.2 ⟨hflags, hparts⟩

theorem moves_constructorMember (hg : Serves n g) (hv : v.Admits .method) {owner : Text}
    {start : Position}
    {d : MethodDecl} (hd : NewMethod num d) (hid : v.Fresh num) : Moves v n .strict pre 1 r
      (constructorMember g owner start d)
      fun m => (Node.ofMember m).Unmarked := by
  unfold constructorMember
  simp only [pure_bind]
  refine .take moves_ident fun name hname => .read (reads_check _) fun _ => .ite (fun _ => ?_)
    fun _ => ?_
  · exact .go (moves_methodBody hg hv (hd.named hname) hid).weak fun d hd => moves_finishMethod hd
  · refine .go (moves_methodRest hg (hd.named hname)).weak fun d hd => ?_
    exact .go (moves_methodBody hg hv hd hid).weak fun d hd => moves_finishMethod hd

theorem moves_methodMember (hg : Serves n g) (hv : v.Admits .method) {start : Position}
    {d : MethodDecl}
    (hd : NewMethod num d) (hid : v.Fresh num) : Moves v n .strict pre 1 r (methodMember g start d)
      fun m => (Node.ofMember m).Unmarked := by
  unfold methodMember
  simp only [pure_bind]
  refine .take (moves_methodRest hg hd) fun d hd => .accept (by decide) ?_ ?_
  · refine .go (hg.elementValue (by decide)).weak fun x hx => ?_
    refine .go (moves_methodBody hg hv (hd.withDefault (by simpa using hx)) hid).weak fun d hd => ?_
    exact moves_finishMethod hd
  · refine .go (moves_methodBody hg hv (hd.withDefault (by simp)) hid).weak fun d hd => ?_
    exact moves_finishMethod hd

theorem reads_isConstructorHere (kind : TypeKind) (name : Text) :
    Reads (isConstructorHere kind name) :=
  reads_peek.bind fun _ => (reads_peekAt _).bind fun _ => .pure

/-- What follows the type parameters of a method or field. -/
def memberRest (g : Grammar) (ownerKind : TypeKind) (ownerName : Text) (start : Position)
    (mods : Modifiers) (info : Info) (doc : Option Comment) (ps : List TypeParam) :
    Parser (Option Member) := do
  let d := { (default : MethodDecl) with info, modifiers := some mods, typeParams := ps, doc }
  if ← isConstructorHere ownerKind ownerName then
    return some (← constructorMember g ownerName start d)
  let type ← resultType g
  let name ← ident
  if ← check .lparen then
    return some (← methodMember g start { d with result := some type, name })
  if !ps.isEmpty then fail "("
  let vars ← declaratorsFrom g name
  expect_ .semicolon
  return some (.field ⟨← infoFrom start, some mods, type, vars, doc⟩)

theorem moves_memberRest (hg : Serves n g) (hv : v.Admits .method) {kind : TypeKind} {owner : Text}
    {start : Position}
    {mods : Modifiers} {i : Info} {doc : Option Comment} {ps : List TypeParam}
    (hmods : (Node.modifiers mods).Unmarked) (hi : i.flags = {}) (hid : v.Fresh i.id)
    (hps : ∀ p ∈ ps, (Node.typeParam p).Unmarked) (hr : 2 ≤ r) : Moves v n .strict pre 1 r
      (memberRest g kind owner start mods i doc ps)
      fun o => ∀ m ∈ o, (Node.ofMember m).Unmarked := by
  unfold memberRest
  refine .read (reads_isConstructorHere _ _) fun _ => .ite (fun _ => ?_) fun _ => ?_
  · refine .take (moves_constructorMember hg hv (newMethod_header hi hmods hps (o := none)
      (by simp) ?_) hid) fun m hm => .pure (by simpa using hm)
    exact Node.unmarked_ident.2 rfl
  · refine .take (moves_resultType hg hr) fun t ht => .go moves_ident.weak fun name hname => ?_
    refine .read (reads_check _) fun _ => .ite (fun _ => ?_) fun _ => .ite (fun _ => ?_) fun _ => ?_
    · exact .go (moves_methodMember hg hv (newMethod_header hi hmods hps (by simpa using ht) hname)
        hid).weak fun m hm => .pure (by simpa using hm)
    · exact .fail (.inl rfl)
    · refine .go (moves_declaratorsFrom hg hname) fun vs hvs => .expect (by decide) ?_
      refine .look (looks_infoFrom start) fun j hj => .pure ?_
      have hfield : (Node.field ⟨j, some mods, t, vs, doc⟩).Unmarked :=
        .mk hj (Node.forall_mem_ofVarDecl.2 ⟨by simpa using hmods, ht, hvs⟩)
      simpa [Node.ofMember] using hfield

theorem moves_member (hg : Serves n g) (hv : v.Admits .method) {kind : TypeKind} {owner : Text} :
    Moves v n .strict pre 1 16 (member g kind owner)
      fun o => ∀ m ∈ o, (Node.ofMember m).Unmarked := by
  unfold member
  simp only [pure_bind]
  refine .accept (by decide) (.pure (by simp)) (.read reads_startPos fun start => ?_)
  refine .read (reads_check _) fun _ => .read (reads_check _) fun _ => .read (reads_checkAt _ _)
    fun _ => ?_
  refine .ite (fun _ => ?_) fun _ => ?_
  · exact .take (moves_initializerBlock hg (hv.imp fun _ h => (Draft.Kind.hosts_member h).1))
      fun m hm => .pure (by simpa using hm)
  refine .look (looks_docBefore _) fun doc _ => .go (moves_modifiers hg (by decide))
    fun mods hmods => ?_
  refine .read reads_isTypeKeywordHere fun _ => .ite (fun _ => ?_) fun _ => ?_
  · have htype : v.Admits .type := hv.imp fun _ h => (Draft.Kind.hosts_member h).2
    refine .take (hg.typeRest start mods doc htype hmods (by decide)) fun d hd => .pure ?_
    simpa [Node.ofMember] using hd
  refine .newInfo fun i hi hid => .read (reads_check _) fun _ => .ite (fun _ => ?_) fun _ => ?_
  · refine .take (moves_typeParams hg) fun ps hps => ?_
    exact (moves_memberRest hg hv.after hmods hi hid hps (by decide)).weak
  · exact moves_memberRest hg hv.after hmods hi hid (by simp) (by decide)

theorem NewType.withMember {d : TypeDecl} {m : Member} (hd : NewType num d)
    (hm : (Node.ofMember m).Unmarked) : NewType num { d with members := d.members ++ [m] } := by
  obtain ⟨hi, hmods, hname, hps, hcs, hsuper, hfaces, hpermits, hconstants, hmembers⟩ :=
    Node.unmarked_typeDecl.1 hd.1
  exact ⟨Node.unmarked_typeDecl.2 ⟨hi, hmods, hname, hps, hcs, hsuper, hfaces, hpermits, hconstants,
    List.forall_mem_append.2 ⟨hmembers, List.forall_mem_singleton.2 hm⟩⟩, hd.2⟩

theorem NewType.withConstants {d : TypeDecl} {constants : List EnumConstant} (hd : NewType num d)
    (hcs : ∀ c ∈ constants, (Node.constant c).Unmarked) : NewType num { d with constants } := by
  obtain ⟨hi, hmods, hname, hps, hcomponents, hsuper, hfaces, hpermits, -, hmembers⟩ :=
    Node.unmarked_typeDecl.1 hd.1
  exact ⟨Node.unmarked_typeDecl.2
    ⟨hi, hmods, hname, hps, hcomponents, hsuper, hfaces, hpermits, hcs,
    hmembers⟩, hd.2⟩

theorem moves_membersFrom (hg : Serves n g) (hv : v.Admits .method) (hx : v.Knows ⟨num, .type⟩)
    (fuel : Nat) : ∀ {k pre} {d : TypeDecl}, k ≤ n → k < 16 * fuel + 16 → NewType num d →
      Moves v k .strict pre 0 16 (membersFrom g d fuel) (NewType num) := by
  induction fuel with
  | zero =>
    intro k pre d _ hk _
    exact moves_exhausted (by omega)
  | succ fuel ih =>
    intro k pre d hkn hk hd
    unfold membersFrom
    simp only [pure_bind]
    refine .read (reads_checkAny _) fun _ => .ite (fun _ => .pure hd) fun _ => ?_
    refine .round (moves_member (hg.lower hkn) hv) fun j o hj ho => ?_
    cases o with
    | none => exact .look (looks_noteChild (hd.slot ▸ hx)) fun _ _ => ih (by omega) (by omega) hd
    | some m =>
      have hmore := hd.withMember (ho m rfl)
      exact .look (looks_noteChild (hmore.slot ▸ hx)) fun _ _ => ih (by omega) (by omega) hmore

/-- Members and the brace behind them. -/
def bracedMembers (g : Grammar) (d : TypeDecl) : Parser TypeDecl := do
  let d ← membersFrom g d (← remaining)
  expect_ .rbrace
  return d

theorem moves_bracedMembers (hg : Serves n g) (hv : v.Admits .method) (hx : v.Knows ⟨num, .type⟩)
    {d : TypeDecl} (hd : NewType num d) :
    Moves v n .strict pre 0 16 (bracedMembers g d) (NewType num) :=
  .loop (fun fuel _ hk hfuel => moves_membersFrom hg hv hx fuel hk hfuel hd)
    fun _ hd => .expect (by decide) (.pure hd)

/-- The body of a type behind its brace. -/
def typeContents (g : Grammar) (d : TypeDecl) : Parser TypeDecl := do
  if d.kind == .enum then
    noteChild (.type d)
    let cs ← enumConstants g
    noteChild (.type { d with constants := cs })
    bracedMembers g { d with constants := cs }
  else bracedMembers g d

theorem moves_typeContents (hg : Serves n g) (hv : v.Admits .method) (hx : v.Knows ⟨num, .type⟩)
    {d : TypeDecl} (hd : NewType num d) :
    Moves v n .strict pre 0 16 (typeContents g d) (NewType num) := by
  unfold typeContents
  refine .ite (fun _ => ?_) fun _ => moves_bracedMembers hg hv hx hd
  refine .look (looks_noteChild (hd.slot ▸ hx)) fun _ _ => .go (moves_enumConstants hg)
    fun cs hcs => ?_
  have hconstants := hd.withConstants hcs
  refine .look (looks_noteChild (hconstants.slot ▸ hx)) fun _ _ => ?_
  exact moves_bracedMembers hg hv hx hconstants

theorem typeBodyRule_eq (g : Grammar) (track : Bool) (d : TypeDecl) : typeBodyRule g track d = (do
    let start ← startPos
    expect_ .lbrace
    if track then
      openDraft (.type { d with bodyStart := start })
      let d ← typeContents g { d with bodyStart := start }
      closeDraft (.type d)
      return d
    else typeContents g { d with bodyStart := start }) := by
  unfold typeBodyRule typeContents bracedMembers
  refine bind_congr fun start => bind_congr fun _ => ?_
  cases track <;> cases d.kind == .enum <;> simp

theorem moves_typeBodyRule (hg : Serves n g) {track : Bool}
    (hv : v.Admits (if track then .type else .method)) {d : TypeDecl} (hd : NewType num d)
    (hid : v.Fresh num) : Moves v n .strict pre 1 0 (typeBodyRule g track d)
      fun d => (Node.typeDecl d).Unmarked := by
  rw [typeBodyRule_eq]
  refine .read reads_startPos fun start => .expect (by decide) ?_
  have hstart : NewType num { d with bodyStart := start } := by
    obtain ⟨hflags, hparts⟩ := Node.unmarked_typeDecl.1 hd.1
    exact ⟨Node.unmarked_typeDecl.2 ⟨hflags, hparts⟩, hd.2⟩
  cases track with
  | true =>
    have hbody : ∀ w : Setting, w.Inside (Draft.type { d with bodyStart := start }).slot →
        Moves w n .strict Any 0 16 (typeContents g { d with bodyStart := start }) (NewType num) :=
      fun w hw => moves_typeContents hg (hw.admits rfl) (hstart.slot ▸ hw.knows) hstart
    exact .tracked (hstart.2.symm ▸ hid) hv hbody (fun _ h => h.2.trans hstart.2.symm)
      fun d hd => .pure hd.1
  | false =>
    exact (moves_typeContents hg hv hid.knows hstart).mono (Nat.le_refl _) (Nat.le_refl _)
      (fun _ => id) fun _ h => h.1

/-- A type of which only the modifiers, the keyword and the name are known. -/
theorem newType_header {i : Info} {kind : TypeKind} {mods : Modifiers} {name : Ident}
    {doc : Option Comment} (hi : i.flags = {}) (hmods : (Node.modifiers mods).Unmarked)
    (hname : (Node.ident name).Unmarked) : NewType i.id { (default : TypeDecl) with
      info := i, kind, modifiers := some mods, name := some name, doc } := by
  refine ⟨Node.unmarked_typeDecl.2 ⟨hi, by simpa using hmods, by simpa using hname, ?_⟩, rfl⟩
  simp [default]

theorem moves_typeRestRule (hg : Serves n g) (hv : v.Admits .type) {start : Position}
    {mods : Modifiers}
    {doc : Option Comment} (hmods : (Node.modifiers mods).Unmarked) : Moves v n .strict pre 1 0
      (typeRestRule g start mods doc)
      fun d => (Node.typeDecl d).Unmarked := by
  unfold typeRestRule
  refine .newInfo fun i hi hid => .take moves_typeKindAndName fun x hx => ?_
  refine .go (moves_typeHeaderRest hg (newType_header hi hmods hx)) fun d hd => ?_
  refine .go (hg.typeBody true d (hd.2 ▸ hid) hv.after hd.1 (by decide)).weak fun d hd => ?_
  refine .read (reads_spanFrom _) fun span => .pure ?_
  obtain ⟨hflags, hparts⟩ := Node.unmarked_typeDecl.1 hd
  exact Node.unmarked_typeDecl.2 ⟨hflags, hparts⟩

/-! ## The closed grammar -/

/-- One more step serves one more rule. -/
theorem Moves.step {α : Type} {m : Mode} {δ k : Nat} {p : Parser α} {P : α → Prop}
    (hp : Moves v n m Any δ k p P) (hr : k + 1 ≤ r) : Moves v (n + 1) m pre δ r p P :=
  fun c s hv hs hn _ => hp c s hv hs (by omega) trivial

/-- A grammar of `n` steps serves with a budget of `n`. -/
theorem serves_grammar (n : Nat) : Serves n (grammar n) := by
  induction n with
  | zero => constructor <;> intros <;> intro c s _ _ hn <;> omega
  | succ n hg =>
    exact {
      annot := (moves_annotRule hg).step
      block := fun track hv => (moves_blockRule hg hv track).step
      switchBody := fun isExpr hv => (moves_switchBodyRule hg hv isExpr).step
      typeBody := fun _ _ hid hv hd => (moves_typeBodyRule hg hv ⟨hd, rfl⟩ hid).step
      typeRest := fun _ _ _ hv hmods => (moves_typeRestRule hg hv hmods).step
      type := (moves_typeRule hg).step
      unary := fun hv => (moves_unaryRule hg hv).step
      pattern := (moves_patternRule hg).step
      binary := fun least hv => (moves_binaryRule hg hv least).step
      conditional := fun hv => (moves_conditionalRule hg hv).step
      assignment := fun hv => (moves_assignmentRule hg hv).step
      elementValue := (moves_elementValueRule hg).step
      expression := (moves_expressionRule hg).step
      initializer := (moves_initializerRule hg).step
      statement := fun hv => (moves_statementRule hg hv).step
      blockStatement := fun hv => (moves_blockStatementRule hg hv).step }

/-! ## Source files -/

theorem moves_packageDecl (hg : Serves n g) :
    Moves v n .strict pre 1 16 (packageDecl g) fun d => (Node.package d).Unmarked := by
  unfold packageDecl
  refine .read reads_startPos fun start => .go (moves_annotsHere hg (by decide))
    fun annots hannots => ?_
  refine .expect (by decide) (.go moves_qualifiedName.weak fun name hname => .expect (by decide) ?_)
  refine .look (looks_infoFrom start) fun i hi => .pure (.mk hi ?_)
  simpa [Node.children, or_imp, forall_and] using ⟨hannots, hname⟩

theorem probes_isAnnotatedPackage (hg : Serves n g) (hr : 1 ≤ r) :
    Probes v n pre r (isAnnotatedPackage g) := by
  unfold isAnnotatedPackage
  refine .read (reads_check _) fun _ => .andAlso (probes_lookahead (m := .strict) ?_)
  exact .go (moves_annotsHere hg hr) fun _ _ => (moves_expect_ (by decide)).weak

theorem moves_importParts (fuel : Nat) : ∀ {k pre} {parts : List Ident}, k < 16 * fuel + r →
    (∀ p ∈ parts, (Node.ident p).Unmarked) →
      Moves v k .strict pre 0 r (importParts parts fuel)
        fun x => ∀ p ∈ x.1, (Node.ident p).Unmarked := by
  induction fuel with
  | zero =>
    intro k pre parts hk _
    exact moves_exhausted (by omega)
  | succ fuel ih =>
    intro k pre parts hk hparts
    unfold importParts
    refine .acceptRound (by decide) (fun j hj => ?_) (.pure hparts)
    refine .go (moves_accept (by decide)) fun _ _ => .ite (fun _ => .pure hparts) fun _ => ?_
    refine .go moves_ident.weak fun p hp => ih (by omega) ?_
    exact List.forall_mem_append.2 ⟨hparts, List.forall_mem_singleton.2 hp⟩

theorem moves_importHeader : Moves v n .strict pre 1 r importHeader
    fun d => (Node.import d).Unmarked := by
  unfold importHeader
  refine .read reads_startPos fun start => .expect (by decide) ?_
  refine .go (moves_accept (by decide)) fun isStatic _ => .read reads_startPos fun nameStart => ?_
  refine .go moves_ident.weak fun first hfirst => ?_
  refine .loop (fun fuel _ _ hfuel => moves_importParts fuel hfuel
    (List.forall_mem_singleton.2 hfirst)) fun x hx => ?_
  refine .look (looks_infoFrom _) fun j hj => .look (looks_infoFrom start) fun i hi =>
    .pure (.mk hi ?_)
  have hname : (Node.qualifiedName ⟨j, x.1⟩).Unmarked := .mk hj (List.forall_mem_map.2 hx)
  exact List.forall_mem_singleton.2 hname

theorem moves_importDecl : Moves v n .strict pre 1 r importDecl
    fun d => (Node.import d).Unmarked := by
  unfold importDecl
  refine .read reads_startPos fun start => .take moves_importHeader fun d hd =>
    .expect (by decide) ?_
  refine .read (reads_spanFrom _) fun span => .pure ?_
  obtain ⟨hflags, hparts⟩ := Node.unmarked_iff.1 hd
  exact .mk hflags hparts

theorem probes_isModule (hg : Serves n g) (hr : 1 ≤ r) : Probes v n pre r (isModule g) := by
  have hend : ∀ {pre : Token → Prop}, Moves v n .strict pre 0 r
      (do if !(← checkWord "module") then fail "module"
          discard advance
          discard ident : Parser Unit) fun _ => True := by
    refine .read (reads_checkWord _) fun _ => .ite (fun _ => .fail (.inl rfl)) fun _ => ?_
    exact .go (moves_discard moves_advance_any) fun _ _ => (moves_discard moves_ident).weak
  unfold isModule
  refine .read reads_get fun _ => .read reads_read fun _ => .andAlso ?_
  refine probes_lookahead (m := .strict) (.go (moves_annotsHere hg hr) fun _ _ => ?_)
  refine .read (reads_checkWord _) fun _ => .ite (fun _ => ?_) fun _ => hend
  exact .go (moves_discard moves_advance_any) fun _ _ => hend

theorem moves_requiresModifiers {m : Mode} :
    Moves v n m pre 0 r requiresModifiers fun _ => True := by
  unfold requiresModifiers
  dsimp only
  refine .go (moves_skipped ⟨?_, ?_⟩) fun _ _ => .pure trivial
  · refine (reads_checkWord _).bind fun _ => (reads_checkAt _ _).bind fun _ => ?_
    exact (reads_checkWord _).bind fun _ => (reads_check _).bind fun _ => .pure
  · intro c s _ h heof
    have hmodifier : ((s.current.isWord "transitive" || s.current.kind == .kwStatic) &&
        !(s.current.isWord "transitive" && (s.token (s.pos + 1)).kind == .semicolon)) = true := by
      injection h
    simp [Token.isWord, heof] at hmodifier

theorem moves_moduleDirective : Moves v n .strict pre 1 r moduleDirective
    fun d => (Node.directive d).Unmarked := by
  have hend : ∀ start word mods name, (Node.qualifiedName name).Unmarked → ∀ targets,
      (∀ q ∈ targets, (Node.qualifiedName q).Unmarked) →
      Moves v n .strict Any 0 16
        (do expect_ .semicolon; return ⟨← infoFrom start, word, mods, name, targets⟩)
        fun d => (Node.directive d).Unmarked := by
    intro start word mods name hname targets htargets
    refine .expect (by decide) (.look (looks_infoFrom start) fun i hi => .pure (.mk hi ?_))
    simpa [Node.children] using ⟨hname, htargets⟩
  have hname : ∀ {pre : Token → Prop}, Moves v n .strict pre 1 16 qualifiedName
      fun q => (Node.qualifiedName q).Unmarked := moves_qualifiedName
  have hnames : ∀ {pre : Token → Prop}, Moves v n .strict pre 0 16 (commaSeparated qualifiedName)
    fun qs => ∀ q ∈ qs, (Node.qualifiedName q).Unmarked :=
    (moves_commaSeparated hname hname.weak).weak
  unfold moduleDirective
  simp only [pure_bind]
  refine .read reads_startPos fun start => .read reads_peek fun t => ?_
  refine .ite (fun _ => ?_) fun _ => .ite (fun _ => ?_) fun _ => .ite (fun _ => ?_) fun _ =>
    .ite (fun _ => ?_) fun _ => .fail (.inl rfl)
  all_goals refine .go (moves_discard moves_advance_any) fun _ _ => ?_
  · refine .go moves_requiresModifiers fun mods _ => .take moves_qualifiedName fun q hq => ?_
    exact hend start _ mods q hq [] (by simp)
  · refine .take moves_qualifiedName fun q hq => .read (reads_checkWord _) fun _ => ?_
    refine .ite (fun _ => ?_) fun _ => hend start _ [] q hq [] (by simp)
    refine .go (moves_discard moves_advance_any) fun _ _ => .go hnames fun qs hqs => ?_
    exact hend start _ [] q hq qs hqs
  · exact .take moves_qualifiedName fun q hq => hend start _ [] q hq [] (by simp)
  · refine .take moves_qualifiedName fun q hq => .read (reads_checkWord _) fun _ => ?_
    refine .ite (fun _ => .fail (.inl rfl)) fun _ => ?_
    refine .go (moves_discard moves_advance_any) fun _ _ => .go hnames fun qs hqs => ?_
    exact hend start _ [] q hq qs hqs

/-- What follows the word `open` of a module declaration. -/
def moduleRest (start : Position) (annots : List Annot) (isOpen : Bool) : Parser ModuleDecl := do
  discard advance
  let name ← qualifiedName
  expect_ .lbrace
  let directives ← manyWhile (return !(← checkAny [.rbrace, .eof])) moduleDirective
  expect_ .rbrace
  return ⟨← infoFrom start, annots, isOpen, name, directives⟩

theorem moves_moduleDecl (hg : Serves n g) :
    Moves v n .strict pre 1 16 (moduleDecl g) fun d => (Node.module d).Unmarked := by
  have hend : ∀ {pre : Token → Prop} start annots, (∀ a ∈ annots, (Node.annot a).Unmarked) →
      ∀ isOpen, Moves v n .strict pre 1 16 (moduleRest start annots isOpen)
        fun d => (Node.module d).Unmarked := by
    intro pre start annots hannots isOpen
    have htest : Reads do return !(← checkAny [.rbrace, .eof]) :=
      (reads_checkAny _).bind fun _ => .pure
    unfold moduleRest
    refine .go (moves_discard moves_advance_any) fun _ _ => .take moves_qualifiedName fun q hq => ?_
    refine .expect (by decide) (.go (moves_many htest moves_moduleDirective) fun ds hds => ?_)
    refine .expect (by decide) (.look (looks_infoFrom start) fun i hi => .pure (.mk hi ?_))
    simp only [Node.children, List.forall_mem_append, List.forall_mem_map,
      List.forall_mem_singleton]
    exact ⟨⟨hannots, hq⟩, hds⟩
  unfold moduleDecl
  dsimp only
  refine .read reads_startPos fun start => .go (moves_annotsHere hg (by decide))
    fun annots hannots => ?_
  refine .read (reads_checkWord _) fun isOpen => .ite (fun _ => ?_) fun _ =>
    hend start annots hannots isOpen
  exact .go (moves_discard moves_advance_any) fun _ _ => hend start annots hannots isOpen

theorem moves_typeDecl (hg : Serves n g) (hv : v.Admits .type) :
    Moves v n .strict pre 1 16 (typeDecl g)
    fun d => (Node.typeDecl d).Unmarked := by
  unfold typeDecl
  refine .read reads_startPos fun start => .look (looks_docBefore _) fun doc _ => ?_
  refine .go (moves_modifiers hg (by decide)) fun mods hmods => .read reads_isTypeKeywordHere
    fun _ => ?_
  exact .ite (fun _ => .fail (.inl rfl)) fun _ => hg.typeRest start mods doc hv hmods (by decide)

/-- An unmarked source file with the given number. -/
def NewUnit (num : Nat) (u : CompilationUnit) : Prop := (Node.unit u).Unmarked ∧ u.info.id = num

theorem NewUnit.slot {u : CompilationUnit} (hu : NewUnit num u) : (Draft.unit u).slot =
    ⟨num, .unit⟩ :=
  congrArg (Slot.mk · .unit) hu.2

theorem moves_importsFrom (hx : v.Knows ⟨num, .unit⟩) (fuel : Nat) : ∀ {k pre}
    {u : CompilationUnit}, k < 16 * fuel + 16 →
    NewUnit num u → Moves v k .strict pre 0 16 (importsFrom u fuel) (NewUnit num) := by
  induction fuel with
  | zero =>
    intro k pre u hk _
    exact moves_exhausted (by omega)
  | succ fuel ih =>
    intro k pre u hk hu
    unfold importsFrom
    simp only [pure_bind]
    refine .read (reads_checkAny _) fun _ => .ite (fun _ => .pure hu) fun _ => ?_
    refine .acceptRound (by decide) (fun j hj => ?_) ?_
    · exact .look (looks_noteChild (hu.slot ▸ hx)) fun _ _ => ih (by omega) hu
    refine .round moves_importDecl fun j d hj hd => ?_
    obtain ⟨hi, hpackage, himports, hparts⟩ := Node.unmarked_unit.1 hu.1
    have hmore : NewUnit num { u with imports := u.imports ++ [d] } :=
      ⟨Node.unmarked_unit.2 ⟨hi, hpackage,
        List.forall_mem_append.2 ⟨himports, List.forall_mem_singleton.2 hd⟩, hparts⟩, hu.2⟩
    exact .look (looks_noteChild (hmore.slot ▸ hx)) fun _ _ => ih (by omega) hmore

theorem moves_typesFrom (hg : Serves n g) (hv : v.Admits .type) (hx : v.Knows ⟨num, .unit⟩)
    (fuel : Nat) :
    ∀ {k pre} {u : CompilationUnit}, k ≤ n → k < 16 * fuel + 16 → NewUnit num u →
      Moves v k .strict pre 0 16 (typesFrom g u fuel) (NewUnit num) := by
  induction fuel with
  | zero =>
    intro k pre u _ hk _
    exact moves_exhausted (by omega)
  | succ fuel ih =>
    intro k pre u hkn hk hu
    unfold typesFrom
    simp only [pure_bind]
    refine .read (reads_check _) fun _ => .ite (fun _ => .pure hu) fun _ => ?_
    refine .acceptRound (by decide) (fun j hj => ?_) ?_
    · exact .look (looks_noteChild (hu.slot ▸ hx)) fun _ _ => ih (by omega) (by omega) hu
    refine .round (moves_typeDecl (hg.lower hkn) hv) fun j d hj hd => ?_
    obtain ⟨hi, hpackage, himports, hmodule, htypes⟩ := Node.unmarked_unit.1 hu.1
    have hmore : NewUnit num { u with types := u.types ++ [d] } :=
      ⟨Node.unmarked_unit.2 ⟨hi, hpackage, himports, hmodule,
        List.forall_mem_append.2 ⟨htypes, List.forall_mem_singleton.2 hd⟩⟩, hu.2⟩
    exact .look (looks_noteChild (hmore.slot ▸ hx)) fun _ _ => ih (by omega) (by omega) hmore

/-- What follows the package of a source file. -/
def unitRest (g : Grammar) (u : CompilationUnit) : Parser CompilationUnit := do
  let u ← importsFrom u (← remaining)
  let u ← if ← isModule g then
      let m ← moduleDecl g
      let u := { u with module := some m }
      noteChild (.unit u)
      pure u
    else pure u
  typesFrom g u (← remaining)

theorem moves_unitRest (hg : Serves n g) (hv : v.Admits .type) (hx : v.Knows ⟨num, .unit⟩)
    {u : CompilationUnit} (hu : NewUnit num u) :
    Moves v n .strict pre 0 16 (unitRest g u) (NewUnit num) := by
  have htypes : ∀ {u}, NewUnit num u →
      Moves v n .strict Any 0 16 (remaining >>= typesFrom g u) (NewUnit num) := fun hu =>
    .remaining fun fuel _ hk hfuel => moves_typesFrom hg hv hx fuel hk hfuel hu
  unfold unitRest
  simp only [pure_bind]
  refine .loop (fun fuel _ _ hfuel => moves_importsFrom hx fuel hfuel hu) fun u hu => ?_
  refine .look (probes_isModule hg (by decide)).looks fun _ _ => .ite (fun _ => ?_) fun _ => ?_
  · refine .go (moves_moduleDecl hg).weak fun d hd => ?_
    obtain ⟨hi, hpackage, himports, -, hparts⟩ := Node.unmarked_unit.1 hu.1
    have hmore : NewUnit num { u with module := some d } :=
      ⟨Node.unmarked_unit.2 ⟨hi, hpackage, himports, by simpa using hd, hparts⟩, hu.2⟩
    exact .look (looks_noteChild (hmore.slot ▸ hx)) fun _ _ => htypes hmore
  · exact htypes hu

/-- A source file from its package on. -/
def packagedUnit (g : Grammar) (u : CompilationUnit) : Parser CompilationUnit := do
  let p ← packageDecl g
  let u := { u with package := some p }
  noteChild (.unit u)
  unitRest g u

theorem moves_packagedUnit (hg : Serves n g) (hv : v.Admits .type) (hx : v.Knows ⟨num, .unit⟩)
    {u : CompilationUnit} (hu : NewUnit num u) :
    Moves v n .strict pre 0 16 (packagedUnit g u) (NewUnit num) := by
  unfold packagedUnit
  refine .go (moves_packageDecl hg).weak fun p hp => ?_
  obtain ⟨hi, -, hparts⟩ := Node.unmarked_unit.1 hu.1
  have hmore : NewUnit num { u with package := some p } :=
    ⟨Node.unmarked_unit.2 ⟨hi, by simpa using hp, hparts⟩, hu.2⟩
  exact .look (looks_noteChild (hmore.slot ▸ hx)) fun _ _ => moves_unitRest hg hv hx hmore

theorem moves_unitParts (hg : Serves n g) (hv : v.Admits .type) (hx : v.Knows ⟨num, .unit⟩)
    {u : CompilationUnit} (hu : NewUnit num u) :
    Moves v n .strict pre 0 16 (unitParts g u) (NewUnit num) := by
  unfold unitParts
  simp only [pure_bind]
  refine .read (reads_check _) fun _ => .ite (fun _ => moves_packagedUnit hg hv hx hu) fun _ => ?_
  refine .look (probes_isAnnotatedPackage hg (by decide)).looks fun _ _ => ?_
  exact .ite (fun _ => moves_packagedUnit hg hv hx hu) fun _ => moves_unitRest hg hv hx hu

/-- The end of a text that is one phrase. -/
theorem moves_expectEnd : Moves v n .strict pre 0 r (expect_ .eof) fun _ => True := by
  have hend : Moves v n .strict pre 0 r (expect .eof) fun _ => True := by
    unfold expect
    exact .read (reads_check _) fun _ => .ite (fun _ => moves_advance_any) fun _ =>
      moves_fail (.inl rfl)
  exact .go hend fun _ _ => .pure trivial

end

end Javelin.Parse
