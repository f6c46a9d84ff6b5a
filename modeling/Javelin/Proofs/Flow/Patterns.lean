import Javelin.Proofs.Flow.Soundness

/-!
# Pattern variables

When the variable of a type pattern counts as assigned. `Evaluates` lists the patterns that a way
through a condition tests, each with whether it matched. On a side of the condition, the variable is
assigned exactly if every way to that side tests its pattern; whether the pattern matched there is
not looked at (`read_accepted_iff_tested`).

The branches of an if statement and the bodies of loops start from the sides of their conditions.
-/

namespace Javelin.Flow

/-! ## Ways through a condition -/

/-- Whether a condition is made of conditions or tests a pattern. -/
def isCompound : Expr → Bool
  | .paren .. | .unary _ .not _ _ | .binary _ .condAnd _ _ | .binary _ .condOr _ _
  | .conditional .. | .instanceOf _ _ _ (some _) => true
  | _ => false

/-- How a condition can come out: the variables of the patterns that are tested, in order and each
with whether its pattern matched, and the truth of the condition. A condition that is constant is
not evaluated; a value that is no condition may be either. -/
inductive Evaluates (p : Program) : Expr → List (Symbol × Bool) → Bool → Prop
  | constant {x b} : p.constantCondition x = some b → Evaluates p x [] b
  | paren {i y tests b} : Evaluates p y tests b → Evaluates p (.paren i y) tests b
  | not {i y f tests b} : p.constantCondition (.unary i .not y f) = none →
      Evaluates p y tests b → Evaluates p (.unary i .not y f) tests !b
  | andFalse {i l r tests} : p.constantCondition (.binary i .condAnd l r) = none →
      Evaluates p l tests false → Evaluates p (.binary i .condAnd l r) tests false
  | andThen {i l r tests more b} : p.constantCondition (.binary i .condAnd l r) = none →
      Evaluates p l tests true → Evaluates p r more b →
      Evaluates p (.binary i .condAnd l r) (tests ++ more) b
  | orTrue {i l r tests} : p.constantCondition (.binary i .condOr l r) = none →
      Evaluates p l tests true → Evaluates p (.binary i .condOr l r) tests true
  | orElse {i l r tests more b} : p.constantCondition (.binary i .condOr l r) = none →
      Evaluates p l tests false → Evaluates p r more b →
      Evaluates p (.binary i .condOr l r) (tests ++ more) b
  | yes {i cond yes no tests more b} : p.constantCondition (.conditional i cond yes no) = none →
      Evaluates p cond tests true → Evaluates p yes more b →
      Evaluates p (.conditional i cond yes no) (tests ++ more) b
  | no {i cond yes no tests more b} : p.constantCondition (.conditional i cond yes no) = none →
      Evaluates p cond tests false → Evaluates p no more b →
      Evaluates p (.conditional i cond yes no) (tests ++ more) b
  | test {i y t j m u name b} :
      p.constantCondition (.instanceOf i y t (some (.typePattern j m u name))) = none →
      Evaluates p (.instanceOf i y t (some (.typePattern j m u name)))
        ((p.declared? name).toList.map (·, b)) b
  | value {x b} : p.constantCondition x = none → isCompound x = false → Evaluates p x [] b

/-- Whether every way through a condition with the given truth tests the pattern of a variable. -/
def Tested (p : Program) (v : Symbol) (x : Expr) (b : Bool) : Prop :=
  ∀ tests, Evaluates p x tests b → ∃ matched, (v, matched) ∈ tests


section

variable {p : Program} {v : Symbol} {i : Info} {x y l r cond yes no : Expr} {b : Bool}
  {tests : List (Symbol × Bool)}

theorem evaluates_constant {b' : Bool} (h : Evaluates p x tests b)
    (hc : p.constantCondition x = some b') : b = b' := by
  induction h with
  | constant hc' => simpa [hc'] using hc
  | paren _ ih => exact ih hc
  | not hn | andFalse hn | andThen hn | orTrue hn | orElse hn | yes hn | no hn | test hn
  | value hn => simp [hn] at hc

theorem tested_constant {b' : Bool} (hc : p.constantCondition x = some b') :
    Tested p v x b ↔ b ≠ b' := by
  constructor
  · rintro h rfl
    obtain ⟨_, hm⟩ := h [] (.constant hc)
    cases hm
  · exact fun hb tests h => absurd (evaluates_constant h hc) hb

theorem tested_paren : Tested p v (.paren i y) b ↔ Tested p v y b := by
  refine ⟨fun h tests ht => h tests (.paren ht), fun h tests ht => h tests ?_⟩
  cases ht with
  | constant hc => exact .constant hc
  | paren ht => exact ht
  | value _ hx => cases hx

theorem tested_withoutParens (x : Expr) : Tested p v x.withoutParens b ↔ Tested p v x b := by
  fun_induction Expr.withoutParens with
  | case1 i y ih => rw [ih, tested_paren]
  | case2 => rfl

/-- One of two parts in a row tests the pattern on every way if together they do. -/
theorem tested_append {b' : Bool} :
    (∀ tests more, Evaluates p x tests b → Evaluates p y more b' →
      ∃ matched, (v, matched) ∈ tests ++ more) ↔ Tested p v x b ∨ Tested p v y b' := by
  constructor
  · intro h
    by_contra hn
    simp only [Tested, not_or, not_forall] at hn
    obtain ⟨⟨tests, hx, htests⟩, more, hy, hmore⟩ := hn
    obtain ⟨matched, hm⟩ := h tests more hx hy
    obtain hm | hm := List.mem_append.1 hm
    · exact htests ⟨matched, hm⟩
    · exact hmore ⟨matched, hm⟩
  · rintro (h | h) tests more hx hy
    · obtain ⟨matched, hm⟩ := h tests hx
      exact ⟨matched, List.mem_append_left _ hm⟩
    · obtain ⟨matched, hm⟩ := h more hy
      exact ⟨matched, List.mem_append_right _ hm⟩

theorem tested_not {f : Bool} (hc : p.constantCondition (.unary i .not y f) = none) :
    Tested p v (.unary i .not y f) b ↔ Tested p v y !b := by
  constructor
  · intro h tests ht
    have := Evaluates.not hc ht
    rw [Bool.not_not] at this
    exact h tests this
  · intro h tests ht
    cases ht with
    | constant hc' => simp [hc] at hc'
    | not _ ht =>
      rw [Bool.not_not] at h
      exact h tests ht
    | value _ hx => cases hx

theorem tested_and (hc : p.constantCondition (.binary i .condAnd l r) = none) :
    Tested p v (.binary i .condAnd l r) b ↔
      (b = false → Tested p v l false) ∧ (Tested p v l true ∨ Tested p v r b) := by
  rw [← tested_append]
  constructor
  · intro h
    refine ⟨?_, fun tests more hl hr => h _ (.andThen hc hl hr)⟩
    rintro rfl tests hl
    exact h tests (.andFalse hc hl)
  · rintro ⟨hl, hr⟩ tests ht
    cases ht with
    | constant hc' => simp [hc] at hc'
    | andFalse _ ht => exact hl rfl tests ht
    | andThen _ h₁ h₂ => exact hr _ _ h₁ h₂
    | value _ hx => cases hx

theorem tested_or (hc : p.constantCondition (.binary i .condOr l r) = none) :
    Tested p v (.binary i .condOr l r) b ↔
      (b = true → Tested p v l true) ∧ (Tested p v l false ∨ Tested p v r b) := by
  rw [← tested_append]
  constructor
  · intro h
    refine ⟨?_, fun tests more hl hr => h _ (.orElse hc hl hr)⟩
    rintro rfl tests hl
    exact h tests (.orTrue hc hl)
  · rintro ⟨hl, hr⟩ tests ht
    cases ht with
    | constant hc' => simp [hc] at hc'
    | orTrue _ ht => exact hl rfl tests ht
    | orElse _ h₁ h₂ => exact hr _ _ h₁ h₂
    | value _ hx => cases hx

theorem tested_conditional (hc : p.constantCondition (.conditional i cond yes no) = none) :
    Tested p v (.conditional i cond yes no) b ↔
      (Tested p v cond true ∨ Tested p v yes b) ∧ (Tested p v cond false ∨ Tested p v no b) := by
  rw [← tested_append, ← tested_append]
  constructor
  · intro h
    exact ⟨fun tests more h₁ h₂ => h _ (.yes hc h₁ h₂), fun tests more h₁ h₂ => h _ (.no hc h₁ h₂)⟩
  · rintro ⟨hy, hn⟩ tests ht
    cases ht with
    | constant hc' => simp [hc] at hc'
    | yes _ h₁ h₂ => exact hy _ _ h₁ h₂
    | no _ h₁ h₂ => exact hn _ _ h₁ h₂
    | value _ hx => cases hx

theorem tested_pattern {j : Info} {m : Option Modifiers} {t u : TypeNode} {name : Ident}
    (hc : p.constantCondition (.instanceOf i y t (some (.typePattern j m u name))) = none) :
    Tested p v (.instanceOf i y t (some (.typePattern j m u name))) b ↔
      p.declared? name = some v := by
  constructor
  · intro h
    obtain ⟨matched, hm⟩ := h _ (.test hc)
    simp only [List.mem_map, Option.mem_toList, Prod.mk.injEq] at hm
    obtain ⟨w, hw, rfl, -⟩ := hm
    exact hw
  · intro hd tests ht
    cases ht with
    | constant hc' => simp [hc] at hc'
    | test _ => exact ⟨b, by simp [hd]⟩
    | value _ hx => cases hx

theorem tested_value (hc : p.constantCondition x = none) (hx : isCompound x = false) :
    ¬ Tested p v x b := by
  intro h
  obtain ⟨_, hm⟩ := h [] (.value hc hx)
  cases hm

end

/-! ## Values -/

/-- Whether an expression names a local variable other than the given one. -/
def NamesOther (p : Program) (l : LocalId) (x : Expr) : Prop :=
  ∃ i m l', x.withoutParens = .name i m ∧ p.findings.uses[m.info.id]? = some (.var l') ∧ l' ≠ l

/-- Expressions of at most the given depth that test no pattern, and assign at most to other local
variables than the given one. -/
def Straight (p : Program) (l : LocalId) : Nat → Expr → Prop
  | 0, _ => False
  | n + 1, x =>
    match x with
    | .paren _ y | .cast _ _ y | .methodRef _ y _ _ | .instanceOf _ y _ none => Straight p l n y
    | .field _ owner _ => Straight p l n owner
    | .call _ target _ _ args =>
      (∀ y ∈ target, Straight p l n y) ∧ ∀ y ∈ args, Straight p l n y
    | .newObject _ outer _ _ args none =>
      (∀ y ∈ outer, Straight p l n y) ∧ ∀ y ∈ args, Straight p l n y
    | .newArray _ _ dims _ init => (∀ y ∈ dims, Straight p l n y) ∧ ∀ y ∈ init, Straight p l n y
    | .arrayInit _ elems => ∀ y ∈ elems, Straight p l n y
    | .index _ array i => Straight p l n array ∧ Straight p l n i
    | .unary _ op y _ =>
      op ≠ .not ∧ if op = .inc ∨ op = .dec then NamesOther p l y else Straight p l n y
    | .binary _ op y z => op ≠ .condAnd ∧ op ≠ .condOr ∧ Straight p l n y ∧ Straight p l n z
    | .assign _ _ target value => NamesOther p l target ∧ Straight p l n value
    | .literal .. | .name .. | .this .. | .super .. | .classLit .. | .typeExpr .. => True
    | _ => False

/-- Whether `z` is a state of the analysis after `a` in which a local variable has slot `k`. -/
structure Places (l : LocalId) (k : Nat) (a z : Analysis) : Prop where
  distinct : DistinctSlots z.slots
  slot : z.slots[Symbol.var l]? = some k
  slots : ∀ (w : Symbol) n, a.slots[w]? = some n → z.slots[w]? = some n

/-- A step that tracks nothing and tells nothing about a variable, whatever slot it has later. -/
def Passes (p : Program) (l : LocalId) (m : Inits → Analyzer Inits) : Prop :=
  ∀ s a s' a', Walks (m s) a s' a' → a.program = p → Kept a a' ∧
    ∀ k z, Places l k a z → s'.isAssigned k = s.isAssigned k

section

variable {p : Program} {a a' : Analysis} {l : LocalId} {s s' : Inits}
  {m m' : Inits → Analyzer Inits}

theorem passes_pure : Passes p l pure := by
  intro s a s' a' hw hp
  obtain ⟨rfl, rfl⟩ := walks_pure hw
  exact ⟨.refl _, fun _ _ _ => rfl⟩

theorem Places.kept {k : Nat} {z : Analysis} (h : Places l k a z) (hk : Kept a a') :
    Places l k a' z :=
  ⟨h.distinct, h.slot, by rw [hk.slots]; exact h.slots⟩

theorem Passes.bind (h : Passes p l m) (h' : Passes p l m') :
    Passes p l fun s => m s >>= m' := by
  intro s a s' a' hw hp
  obtain ⟨t, a₁, hw₁, hw₂⟩ := walks_bind hw
  obtain ⟨kept₁, same₁⟩ := h s a t a₁ hw₁ hp
  obtain ⟨kept₂, same₂⟩ := h' t a₁ s' a' hw₂ (kept₁.program.trans hp)
  refine ⟨kept₁.trans kept₂, fun k z hz => ?_⟩
  rw [same₂ k z (hz.kept kept₁), same₁ k z hz]

/-- A step without a result before or after another. -/
theorem Passes.after {c : Inits → Analyzer Unit} (hc : ∀ s, Keeps (c s)) (h : Passes p l m) :
    Passes p l fun s => c s >>= fun _ => m s := by
  intro s a s' a' hw hp
  obtain ⟨_, a₁, hw₁, hw₂⟩ := walks_bind hw
  have kept := hc s _ _ _ hw₁
  obtain ⟨kept₂, same⟩ := h s a₁ s' a' hw₂ (kept.program.trans hp)
  exact ⟨kept.trans kept₂, fun k z hz => same k z (hz.kept kept)⟩

theorem passes_checks {c : Inits → Analyzer Unit} (hc : ∀ s, Keeps (c s)) :
    Passes p l fun s => c s >>= fun _ => pure s :=
  Passes.after hc passes_pure

theorem passes_exprs [Visitor] {xs : List Expr}
    (h : ∀ x ∈ xs, Passes p l (Visitor.expr x)) : Passes p l (exprs xs) := by
  induction xs with
  | nil => exact passes_pure
  | cons x xs ih =>
    exact (h x List.mem_cons_self).bind (ih fun y hy => h y (List.mem_cons_of_mem _ hy))

theorem passes_optional [Visitor] {x : Option Expr}
    (h : ∀ y ∈ x, Passes p l (Visitor.expr y)) : Passes p l (optional x) :=
  passes_exprs (by simpa using h)

theorem keeps_read (name : Ident) (s : Inits) : Keeps (read name s) := by
  refine (still_known _).keeps.bind fun v => ?_
  split
  · refine (still_slot _).keeps.bind fun n => ?_
    split
    · split
      · exact keeps_pure _
      · exact keeps_report _ _ _
    · exact keeps_pure _
  · exact still_get.keeps.bind fun a => keeps_readBlankFinal _ _ _
  · exact keeps_pure _

/-- Assigning a local variable notes at most a value of this variable. -/
theorem walks_writeLocal {l' : LocalId} {name : Ident}
    (hw : Walks (write (.var l') name s) a s' a') :
    Kept a a' ∧ (s' = s ∨ ∃ n, a.slots[Symbol.var l']? = some n ∧ s' = s.assign n) := by
  have hw := walks_slotBind (walks_getBind hw)
  -- A final variable that may have a value is reported; the value is noted all the same.
  have noted : ∀ {isReported : Bool} {t : Inits}, Walks (do
      if isReported then
        report .finalReassignment name.info [name.name]
      return t) a s' a' → s' = t ∧ Kept a a' := by
    intro isReported t hw
    cases isReported with
    | true =>
      obtain ⟨_, a₁, hw₁, hw₂⟩ := walks_bind hw
      obtain ⟨rfl, rfl⟩ := walks_pure hw₂
      exact ⟨rfl, keeps_report _ _ _ _ _ _ hw₁⟩
    | false =>
      obtain ⟨rfl, rfl⟩ := walks_pure hw
      exact ⟨rfl, .refl _⟩
  cases hn : a.slots[Symbol.var l']? with
  | none =>
    rw [hn] at hw
    obtain ⟨rfl, kept⟩ := noted hw
    exact ⟨kept, .inl rfl⟩
  | some n =>
    rw [hn] at hw
    obtain ⟨rfl, kept⟩ := noted hw
    exact ⟨kept, .inr ⟨n, rfl, rfl⟩⟩

theorem passes_writeLocal {l' : LocalId} (hl : l' ≠ l) (name : Ident) :
    Passes p l (write (.var l') name) := by
  intro s a s' a' hw hp
  obtain ⟨kept, rfl | ⟨n, hn, rfl⟩⟩ := walks_writeLocal hw
  · exact ⟨kept, fun _ _ _ => rfl⟩
  · refine ⟨kept, fun k z hz => ?_⟩
    have hne : n ≠ k := by
      rintro rfl
      have := hz.distinct _ _ n (hz.slots _ n hn) hz.slot
      simp_all
    simp [hne]

theorem passes_assignment [Answers] [Visitor] {target : Expr} {value : Option Expr}
    {isCompound : Bool} (ht : NamesOther p l target)
    (hv : ∀ x ∈ value, Passes p l (Visitor.expr x)) :
    Passes p l (assignment target value isCompound) := by
  obtain ⟨i, m, l', hx, hu, hl⟩ := ht
  have rest : ∀ {f : Option Symbol → Inits → Analyzer Inits},
      (∀ s, f (some (.var l')) s = write (.var l') m s) → Passes p l fun s =>
        optional value s >>= fun s => known (·.uses[m.info.id]?) >>= fun v => f v s := by
    refine fun hf => (passes_optional hv).bind fun s a s' a' hw hp => ?_
    have hw := walks_knownBind hw
    rw [hp, hu, hf] at hw
    exact passes_writeLocal hl m s a s' a' hw hp
  intro s a s' a' hw hp
  unfold assignment at hw
  rw [hx] at hw
  cases isCompound with
  | true => exact (rest fun _ => rfl).after (keeps_read m) s a s' a' hw hp
  | false => exact rest (fun _ => rfl) s a s' a' hw hp

/-- The walk of a straight expression. -/
theorem passes_straight {n : Nat} {x : Expr} (hx : Straight p l n x) :
    Passes p l ((visitor n).expr x) := by
  induction n generalizing x with
  | zero => exact hx.elim
  | succ n ih =>
    let _ := visitor n
    have all : ∀ {ys : List Expr}, (∀ y ∈ ys, Straight p l n y) → Passes p l (exprs ys) :=
      fun h => passes_exprs fun y hy => ih (h y hy)
    have maybe : ∀ {y : Option Expr}, (∀ y' ∈ y, Straight p l n y') → Passes p l (optional y) :=
      fun h => passes_optional fun y hy => ih (h y hy)
    cases x with
    | paren i y => exact ih hx
    | cast i t y => exact ih hx
    | methodRef i y ts m => exact ih hx
    | name i m => exact passes_checks (keeps_read m)
    | field i owner m =>
      intro s a s' a' hw hp
      change Walks (exprRule (.field i owner m) s) a s' a' at hw
      unfold exprRule at hw
      simp only at hw
      split at hw
      · exact passes_checks (keeps_readField i m) s a s' a' hw hp
      · exact ih hx s a s' a' hw hp
    | call i target ts m args =>
      exact (maybe hx.1).bind ((all hx.2).bind (passes_checks fun _ => keeps_thrownByCall i i))
    | newObject i outer ts t args body =>
      cases body with
      | some d => exact hx.elim
      | none =>
        exact (maybe hx.1).bind ((all hx.2).bind (passes_checks fun _ => keeps_thrownByCall i i))
    | newArray i t dims m init => exact (all hx.1).bind (maybe hx.2)
    | arrayInit i elems => exact all hx
    | index i array y => exact (ih hx.1).bind (ih hx.2)
    | unary i op y f =>
      obtain ⟨hop, hx⟩ := hx
      have target : NamesOther p l y → Passes p l (assignment y none true) :=
        fun h => passes_assignment h (by simp)
      cases op with
      | not => exact absurd rfl hop
      | inc | dec => exact target hx
      | _ => exact ih hx
    | binary i op y w =>
      obtain ⟨hand, hor, hy, hw⟩ := hx
      cases op with
      | condAnd => exact absurd rfl hand
      | condOr => exact absurd rfl hor
      | _ => exact (ih hy).bind (ih hw)
    | assign i op target value =>
      exact passes_assignment hx.1 (by simpa using ih hx.2)
    | instanceOf i y t pattern =>
      cases pattern with
      | some x => exact hx.elim
      | none => exact (ih hx).bind passes_pure
    | conditional | lambda | switch | typePattern | recordPattern | bad | annot => exact hx.elim
    | _ => exact passes_pure

end

/-! ## Conditions -/

/-- Conditions of at most the given depth that are made of `!`, `&&`, `||` and `?:`, tests of type
patterns, and straight values. -/
def Testing (p : Program) (l : LocalId) : Nat → Expr → Prop
  | 0, _ => False
  | n + 1, x =>
    match x.withoutParens with
    | .unary _ .not y _ => Testing p l n y
    | .binary _ .condAnd y z | .binary _ .condOr y z => Testing p l n y ∧ Testing p l n z
    | .conditional _ cond y z => Testing p l n cond ∧ Testing p l n y ∧ Testing p l n z
    | .instanceOf _ y _ (some (.typePattern ..)) => Straight p l n y
    | y => Straight p l (n + 1) y

/-- The state for one truth of a condition. -/
def Inits.side (s : Inits) (b : Bool) : Inits := if b then s.whenTrue else s.whenFalse

@[simp]
theorem Inits.side_split (s t : Inits) (b : Bool) :
    (Inits.split s t).side b = if b then s else t := by
  cases b <;> rfl

/-- How later states of the analysis relate to earlier ones: what is tracked keeps its slot. -/
structure Extends (p : Program) (a a' : Analysis) : Prop where
  tidy : Tidy p a'
  slots : ∀ (w : Symbol) n, a.slots[w]? = some n → a'.slots[w]? = some n

/-- A step that splits the state: on each side, a variable is assigned if it was before or by the
condition. -/
def Splits (p : Program) (l : LocalId) (T : Bool → Prop) (m : Inits → Analyzer Inits) : Prop :=
  ∀ s a s' a', Walks (m s) a s' a' → Tidy p a → Extends p a a' ∧
    ∀ k z, Places l k a' z → ∀ b, (s'.side b).isAssigned k ↔ s.isAssigned k ∨ T b

section

variable {p : Program} {a a' : Analysis} {l : LocalId} {n : Nat} {s s' : Inits}
  {m : Inits → Analyzer Inits} {T : Bool → Prop}

theorem Extends.refl (h : Tidy p a) : Extends p a a := ⟨h, fun _ _ h => h⟩

theorem Extends.trans {a₁ : Analysis} (h : Extends p a a₁) (h' : Extends p a₁ a') :
    Extends p a a' :=
  ⟨h'.tidy, fun w n hn => h'.slots w n (h.slots w n hn)⟩

theorem Places.earlier {k : Nat} {z : Analysis} (h : Places l k a' z) (hx : Extends p a a') :
    Places l k a z :=
  ⟨h.distinct, h.slot, fun w n hn => h.slots w n (hx.slots w n hn)⟩

theorem Kept.extends (h : Kept a a') (ht : Tidy p a) : Extends p a a' :=
  ⟨h.tidy ht, fun w n hn => by rwa [h.slots]⟩

/-- The test of a type pattern tracks its variable and gives it a value. -/
theorem walks_bindPattern {name : Ident} (hw : Walks (bind name s) a s' a') (ht : Tidy p a) :
    Extends p a a' ∧ (p.declared? name = none ∧ s' = s ∨
      ∃ v n, p.declared? name = some v ∧ a'.slots[v]? = some n ∧ s' = s.assign n) := by
  obtain ⟨m, a₁, hw₁, hw₂⟩ := walks_bind hw
  have hw₁ := walks_getBind hw₁
  rw [ht.program] at hw₁
  cases hd : p.declared? name with
  | none =>
    rw [hd] at hw₁
    obtain ⟨rfl, rfl⟩ := walks_pure hw₁
    obtain ⟨rfl, rfl⟩ := walks_pure hw₂
    exact ⟨.refl ht, .inl ⟨rfl, rfl⟩⟩
  | some v =>
    rw [hd] at hw₁
    obtain ⟨n, a₂, hw₃, hw₄⟩ := walks_bind hw₁
    obtain ⟨rfl, rfl⟩ := walks_pure hw₄
    obtain ⟨rfl, rfl⟩ := walks_pure hw₂
    obtain ⟨hn, rfl⟩ | ⟨hn, rfl, rfl⟩ := walks_track hw₃
    · exact ⟨.refl ht, .inr ⟨v, n, rfl, hn, rfl⟩⟩
    · refine ⟨⟨ht.tracked v, fun w n hw => ?_⟩, .inr ⟨v, _, rfl, tracked_self a v, rfl⟩⟩
      exact (grows_tracked (c := .reads) hn (declared_eq_var hd)).kept w n hw

theorem withoutParens_ne_paren {i : Info} {y : Expr} (x : Expr) : x.withoutParens ≠ .paren i y := by
  fun_induction Expr.withoutParens with
  | case1 j z ih => exact ih
  | case2 x h => exact h i y

/-! The rules follow the ways to combine conditions. -/

section

variable {m' m'' : Inits → Analyzer Inits} {T' T'' : Bool → Prop}

theorem Splits.negated (h : Splits p l T m) :
    Splits p l (fun b => T !b) fun s => do
      let c ← m s
      return .split c.whenFalse c.whenTrue := by
  intro s a s' a' hw ht
  obtain ⟨c, a₁, hw₁, hw₂⟩ := walks_bind hw
  obtain ⟨rfl, rfl⟩ := walks_pure hw₂
  obtain ⟨ext, sides⟩ := h s a c a' hw₁ ht
  refine ⟨ext, fun k z hz b => ?_⟩
  have := sides k z hz !b
  cases b <;> exact this

/-- The two sides of a condition, where what follows it has tracked more. -/
theorem Splits.sides {a₁ : Analysis} (h : Splits p l T m) (hw : Walks (m s) a s' a₁)
    (ht : Tidy p a) (hx : Extends p a₁ a') {k : Nat} {z : Analysis} (hz : Places l k a' z) :
    (s'.whenTrue.isAssigned k ↔ s.isAssigned k ∨ T true) ∧
      (s'.whenFalse.isAssigned k ↔ s.isAssigned k ∨ T false) := by
  have sides := (h s a s' a₁ hw ht).2 k z (hz.earlier hx)
  exact ⟨sides true, sides false⟩

theorem Splits.andAlso (h : Splits p l T m) (h' : Splits p l T' m') :
    Splits p l (fun b => (b = false → T false) ∧ (T true ∨ T' b)) fun s => do
      let c ← m s
      let d ← m' c.whenTrue
      return .split d.whenTrue (c.whenFalse.merge d.whenFalse) := by
  intro s a s' a' hw ht
  obtain ⟨c, a₁, hw₁, hw⟩ := walks_bind hw
  obtain ⟨d, a₂, hw₂, hw⟩ := walks_bind hw
  obtain ⟨rfl, rfl⟩ := walks_pure hw
  have ext := (h s a c a₁ hw₁ ht).1
  obtain ⟨ext', sides'⟩ := h' c.whenTrue a₁ d a' hw₂ ext.tidy
  refine ⟨ext.trans ext', fun k z hz b => ?_⟩
  obtain ⟨onTrue, onFalse⟩ := h.sides hw₁ ht ext' hz
  cases b with
  | true =>
    have second : d.whenTrue.isAssigned k ↔ c.whenTrue.isAssigned k ∨ T' true := sides' k z hz true
    simp [second, onTrue, or_assoc]
  | false =>
    have second : d.whenFalse.isAssigned k ↔ c.whenTrue.isAssigned k ∨ T' false :=
      sides' k z hz false
    simp [second, onTrue, onFalse, or_assoc, or_and_left]

theorem Splits.orElse (h : Splits p l T m) (h' : Splits p l T' m') :
    Splits p l (fun b => (b = true → T true) ∧ (T false ∨ T' b)) fun s => do
      let c ← m s
      let d ← m' c.whenFalse
      return .split (c.whenTrue.merge d.whenTrue) d.whenFalse := by
  intro s a s' a' hw ht
  obtain ⟨c, a₁, hw₁, hw⟩ := walks_bind hw
  obtain ⟨d, a₂, hw₂, hw⟩ := walks_bind hw
  obtain ⟨rfl, rfl⟩ := walks_pure hw
  have ext := (h s a c a₁ hw₁ ht).1
  obtain ⟨ext', sides'⟩ := h' c.whenFalse a₁ d a' hw₂ ext.tidy
  refine ⟨ext.trans ext', fun k z hz b => ?_⟩
  obtain ⟨onTrue, onFalse⟩ := h.sides hw₁ ht ext' hz
  cases b with
  | true =>
    have second : d.whenTrue.isAssigned k ↔ c.whenFalse.isAssigned k ∨ T' true := sides' k z hz true
    simp [second, onTrue, onFalse, or_assoc, or_and_left]
  | false =>
    have second : d.whenFalse.isAssigned k ↔ c.whenFalse.isAssigned k ∨ T' false :=
      sides' k z hz false
    simp [second, onFalse, or_assoc]

theorem Splits.choose (h : Splits p l T m) (h' : Splits p l T' m')
    (h'' : Splits p l T'' m'') :
    Splits p l (fun b => (T true ∨ T' b) ∧ (T false ∨ T'' b)) fun s => do
      let c ← m s
      let t ← m' c.whenTrue
      let f ← m'' c.whenFalse
      return .split (t.whenTrue.merge f.whenTrue) (t.whenFalse.merge f.whenFalse) := by
  intro s a s' a' hw ht
  obtain ⟨c, a₁, hw₁, hw⟩ := walks_bind hw
  obtain ⟨t, a₂, hw₂, hw⟩ := walks_bind hw
  obtain ⟨f, a₃, hw₃, hw⟩ := walks_bind hw
  obtain ⟨rfl, rfl⟩ := walks_pure hw
  have ext := (h s a c a₁ hw₁ ht).1
  obtain ⟨ext', sides'⟩ := h' c.whenTrue a₁ t a₂ hw₂ ext.tidy
  obtain ⟨ext'', sides''⟩ := h'' c.whenFalse a₂ f a' hw₃ ext'.tidy
  refine ⟨(ext.trans ext').trans ext'', fun k z hz b => ?_⟩
  have hz₂ := hz.earlier ext''
  obtain ⟨onTrue, onFalse⟩ := h.sides hw₁ ht ext' hz₂
  have merged : ((Inits.split (t.whenTrue.merge f.whenTrue) (t.whenFalse.merge f.whenFalse)).side
      b).isAssigned k ↔ (t.side b).isAssigned k ∧ (f.side b).isAssigned k := by
    cases b <;> simp <;> rfl
  rw [merged, sides' k z hz₂ b, sides'' k z hz b, onTrue, onFalse, or_assoc, or_assoc, or_and_left]

/-- A value that is no condition has either truth. -/
theorem Passes.splits (h : Passes p l m) :
    Splits p l (fun _ => False) fun s => do
      let stop ← m s
      return .split stop stop := by
  intro s a s' a' hw ht
  obtain ⟨stop, a₁, hw₁, hw₂⟩ := walks_bind hw
  obtain ⟨rfl, rfl⟩ := walks_pure hw₂
  obtain ⟨kept, same⟩ := h s a stop a' hw₁ ht.program
  refine ⟨kept.extends ht, fun k z hz b => ?_⟩
  simp [same k z (hz.earlier (kept.extends ht))]

theorem Splits.of_iff (h : Splits p l T m) (hT : ∀ b, T' b ↔ T b) : Splits p l T' m := by
  rwa [show T' = T from funext fun b => propext (hT b)]

end

/-- The test of a type pattern. -/
theorem splits_test (name : Ident) (h : Passes p l m) :
    Splits p l (fun _ => p.declared? name = some (.var l)) fun s => do
      let t ← m s
      let stop ← bind name t
      return .split stop stop := by
  intro s a s' a' hw ht
  obtain ⟨t, a₁, hw₁, hw⟩ := walks_bind hw
  obtain ⟨stop, a₂, hw₂, hw⟩ := walks_bind hw
  obtain ⟨rfl, rfl⟩ := walks_pure hw
  obtain ⟨kept, same⟩ := h s a t a₁ hw₁ ht.program
  obtain ⟨ext, bound⟩ := walks_bindPattern hw₂ (kept.tidy ht)
  refine ⟨(kept.extends ht).trans ext, fun k z hz b => ?_⟩
  have ht := same k z ((hz.earlier ext).earlier (kept.extends ht))
  have whole : stop.isAssigned k ↔ s.isAssigned k ∨ p.declared? name = some (.var l) := by
    obtain ⟨hd, rfl⟩ | ⟨v, n, hd, hn, rfl⟩ := bound
    · simp [hd, ht]
    · have : n = k ↔ v = .var l := by
        constructor
        · rintro rfl
          exact hz.distinct _ _ n (hz.slots v n hn) hz.slot
        · rintro rfl
          simpa [hz.slots _ n hn] using hz.slot
      simp [hd, ht, this]
  cases b <;> exact whole

theorem splits_conditionOr {x : Expr} (hx : Testing p l (n + 1) x) (hp : x.withoutParens = x)
    (ih : ∀ y, Testing p l n y → Splits p l (Tested p (.var l) y) ((visitor n).condition y)) :
    Splits p l (Tested p (.var l) x)
      fun s => @conditionOr (visitor n) (@exprRule _ (visitor n) x s) x s := by
  intro s a s' a' hw ht
  have hw := walks_constantBind hw
  rw [ht.program] at hw
  cases hc : p.constantCondition x with
  | some b =>
    rw [hc] at hw
    simp only [tested_constant hc]
    cases b with
    | true =>
      obtain ⟨rfl, rfl⟩ := walks_pure hw
      refine ⟨.refl ht, fun _ _ _ b => ?_⟩
      cases b <;> simp [Inits.isAssigned]
    | false =>
      obtain ⟨rfl, rfl⟩ := walks_pure hw
      refine ⟨.refl ht, fun _ _ _ b => ?_⟩
      cases b <;> simp [Inits.isAssigned]
  | none =>
    rw [hc] at hw
    unfold Testing at hx
    rw [hp] at hx
    have leaf : ∀ {x : Expr}, Straight p l (n + 1) x → isCompound x = false →
        p.constantCondition x = none → Splits p l (Tested p (.var l) x) fun s => do
          let stop ← (visitor (n + 1)).expr x s
          return .split stop stop := fun hx hx' hc =>
      (passes_straight hx).splits.of_iff fun b => iff_false_intro (tested_value hc hx')
    cases x with
    | unary i op y f =>
      cases op with
      | not => exact ((ih y hx).negated.of_iff fun b => tested_not hc) s a s' a' hw ht
      | _ => exact leaf hx rfl hc s a s' a' hw ht
    | binary i op y y' =>
      cases op with
      | condAnd =>
        exact (((ih y hx.1).andAlso (ih y' hx.2)).of_iff fun b => tested_and hc) s a s' a' hw ht
      | condOr =>
        exact (((ih y hx.1).orElse (ih y' hx.2)).of_iff fun b => tested_or hc) s a s' a' hw ht
      | _ => exact leaf hx rfl hc s a s' a' hw ht
    | conditional i cond y y' =>
      have whole := (ih cond hx.1).choose (ih y hx.2.1) (ih y' hx.2.2)
      exact (whole.of_iff fun b => tested_conditional hc) s a s' a' hw ht
    | instanceOf i y t pattern =>
      cases pattern with
      | none => exact leaf hx rfl hc s a s' a' hw ht
      | some q =>
        cases q with
        | typePattern j m u name =>
          have whole := splits_test name (passes_straight hx)
          cases n with
          | zero => exact hx.elim
          | succ n =>
            refine (whole.of_iff fun b => tested_pattern hc) s a s' a' ?_ ht
            have pattern : (visitor (n + 1)).expr (.typePattern j m u name) = bind name := rfl
            simpa [exprRule, optional, exprs, pattern] using hw
        | _ => exact hx.elim
    | paren i y => exact absurd hp (withoutParens_ne_paren _)
    | _ => exact leaf hx rfl hc s a s' a' hw ht

/-- The walk of a condition. -/
theorem splits_condition {x : Expr} (hx : Testing p l n x) :
    Splits p l (Tested p (.var l) x) ((visitor n).condition x) := by
  induction n generalizing x with
  | zero => exact hx.elim
  | succ n ih =>
    have inner : Testing p l (n + 1) x.withoutParens := by
      unfold Testing at hx ⊢
      rwa [withoutParens_idem]
    have whole := splits_conditionOr inner (withoutParens_idem x) fun y hy => ih hy
    exact whole.of_iff fun b => (tested_withoutParens x).symm

end

/-- A pattern variable that has no value before a condition can be read on a side of the condition
exactly if every way to that side tests the pattern. -/
theorem read_accepted_iff_tested {p : Program} {l : LocalId} {n k : Nat} {x : Expr} {name : Ident}
    {a a' a'' : Analysis} {s s' : Inits} {w w' w₁ w₂ : World} {b : Bool} (hx : Testing p l n x)
    (ht : Tidy p a) (hw : ((visitor n).condition x s).run a w = .ok (s', a') w')
    (hk : a'.slots[Symbol.var l]? = some k) (hs : s.isAssigned k = false)
    (hu : p.findings.uses[name.info.id]? = some (.var l))
    (hr : (read name (s'.side b)).run a' w₁ = .ok ((), a'') w₂) :
    a''.reported = a'.reported ↔
      ∀ tests, Evaluates p x tests b → ∃ matched, (.var l, matched) ∈ tests := by
  obtain ⟨ext, sides⟩ := splits_condition hx s a s' a' ⟨w, w', hw⟩ ht
  have side := sides k a' ⟨ext.tidy.distinct, hk, fun _ _ h => h⟩ b
  have hr := walks_knownBind (show Walks (read name (s'.side b)) a' () a'' from ⟨w₁, w₂, hr⟩)
  rw [ext.tidy.program, hu] at hr
  have hr := walks_slotBind hr
  rw [hk] at hr
  simp only [hs, Bool.false_eq_true, false_or] at side
  change _ ↔ Tested p (.var l) x b
  rw [← side]
  simp only at hr
  split at hr <;> rename_i hassigned
  · obtain ⟨-, rfl⟩ := walks_pure hr
    simpa using hassigned
  · obtain rfl := walks_report hr
    simpa using hassigned

/-! ## A test that did not match

The condition `!(1 instanceof int x)`, and a read of `x` where it holds. -/

def sampleTest : Expr :=
  .instanceOf {} (.literal {} .int {}) (.primitive {} .int)
    (some (.typePattern {} none (.primitive {} .int) ⟨{ id := 1 }, {}⟩))

def sampleNegation : Expr := .unary {} .not sampleTest false

theorem ran_sampleTest (w : World) :
    Ran ((visitor 2).condition sampleTest .start) sampleStart w
      (.split (Inits.start.assign 0) (Inits.start.assign 0)) (sampleStart.tracked sampleVar) w := by
  have bound : Ran (bind ⟨{ id := 1 }, {}⟩ .start) sampleStart w (Inits.start.assign 0)
      (sampleStart.tracked sampleVar) w :=
    ran_bind_new sample_declared (by simp [sampleStart])
  change Ran (@conditionRule _ (visitor 1) sampleTest .start) _ _ _ _ _
  unfold conditionRule conditionOr
  refine Ran.constantBind (sample_notConstant _) ?_
  exact Ran.bind (Ran.bind (Ran.pure _ _ _) (Ran.bind bound (Ran.pure _ _ _))) (Ran.pure _ _ _)

theorem ran_sampleNegation (w : World) :
    Ran ((visitor 3).condition sampleNegation .start) sampleStart w
      (.split (Inits.start.assign 0) (Inits.start.assign 0)) (sampleStart.tracked sampleVar) w := by
  change Ran (@conditionRule _ (visitor 2) sampleNegation .start) _ _ _ _ _
  unfold conditionRule conditionOr
  exact Ran.constantBind (sample_notConstant _) (Ran.bind (ran_sampleTest w) (Ran.pure _ _ _))

theorem read_accepted_iff_tested_negation :
    Evaluates sampleProgram sampleNegation [(sampleVar, false)] true ∧
      ∀ tests, Evaluates sampleProgram sampleNegation tests true →
        ∃ matched, (sampleVar, matched) ∈ tests := by
  have failed : Evaluates sampleProgram sampleTest [(sampleVar, false)] false := by
    have := Evaluates.test (b := false) (sample_notConstant sampleTest)
    rwa [sample_declared] at this
  have slot := tracked_self sampleStart sampleVar
  have seen : Ran (read ⟨{ id := 3 }, {}⟩ _) _ default () _ default :=
    ran_read sample_read slot (s := Inits.start.assign 0) (by decide)
  exact ⟨.not (sample_notConstant _) failed,
    (read_accepted_iff_tested (n := 3) (b := true) (by simp [sampleNegation, sampleTest, Testing,
      Straight, Expr.withoutParens]) (sample_bodyStart .reads).ready.tidy
      (ran_sampleNegation default) slot (by decide) sample_read seen).1 rfl⟩

end Javelin.Flow
