import Javelin.Proofs.Flow.Framing
import Javelin.Proofs.Flow.Plain
import Javelin.Proofs.Flow.Settling

/-!
# Variables

Declaring, reading and assigning variables: the steps at which a problem of concern is reported, and
at which a variable is tracked.
-/

namespace Javelin.Flow

open Behavior

variable {c : Concern} {p : Program} {D D₁ D₂ : List Symbol} {a a' a₁ : Analysis}
  {s s' : Inits} {σ : Store} {v : Symbol} {n : Nat}

/-! ## Steps without a result -/

/-- A step that looks at a state and leaves it as it is follows a behavior. -/
def Checks (c : Concern) (p : Program) (D : List Symbol) (k : Inits → Analyzer Unit)
    (B : Behavior) : Prop :=
  ∀ s a u a', Walks (k s) a u a' → Ready p D a s → Sound c p D a s B a' s

theorem Checks.bind {k : Inits → Analyzer Unit} {m : Inits → Analyzer Inits} {B C : Behavior}
    (hk : Checks c p D₁ k B) (hm : Tracks c p D₂ m C) :
    Tracks c p (D₁ ++ D₂) (fun s => k s >>= fun _ => m s) (B.andThen C) := by
  intro s a s' a' hw hr
  obtain ⟨u, a₁, hw₁, hw₂⟩ := walks_bind hw
  have first := hk s a u a₁ hw₁ hr.left
  exact first.andThen (hm s a₁ s' a' hw₂ (hr.right first first.below))

theorem Checks.tracks {k : Inits → Analyzer Unit} {B : Behavior} (hk : Checks c p D k B) :
    Tracks c p D (fun s => k s >>= fun _ => pure s) B := by
  intro s a s' a' hw hr
  obtain ⟨u, a₁, hw₁, hw₂⟩ := walks_bind hw
  obtain ⟨rfl, rfl⟩ := walks_pure hw₂
  exact hk s' a u a' hw₁ hr

theorem checks_skip {k : Inits → Analyzer Unit} (hk : ∀ s, Keeps (k s)) :
    Checks c p D k .skip := by
  intro s a u a' hw hr
  have kept := hk s _ _ _ hw
  exact .keepBefore kept (sound_skip (hr.kept kept))

/-- Another way to say which runs a step follows. -/
theorem Tracks.of_imp {m : Inits → Analyzer Inits} {B C : Behavior} (h : Tracks c p D m B)
    (hB : ∀ es r, C es r → B es r) : Tracks c p D m C :=
  fun s a s' a' hw hr => (h s a s' a' hw hr).of_imp hB

theorem skip_andThen_iff {B : Behavior} (es : List Event) (r : Outcome) :
    B es r ↔ (skip.andThen B) es r := by
  constructor
  · exact fun h => .inr ⟨[], es, rfl, ⟨rfl, rfl⟩, h⟩
  · rintro (⟨⟨-, rfl⟩, h⟩ | ⟨_, _, rfl, ⟨rfl, -⟩, h⟩)
    · simp [Outcome.isAbrupt] at h
    · exact h

/-! ## Tracking -/

theorem walks_track {m : Nat} (h : Walks (track v) a m a') :
    a.slots[v]? = some m ∧ a' = a ∨ a.slots[v]? = none ∧ m = a.nextSlot ∧
      a' = { a with slots := a.slots.insert v m, nextSlot := m + 1 } := by
  have h' := walks_slotBind h
  cases hv : a.slots[v]? with
  | some k =>
    rw [hv] at h'
    obtain ⟨rfl, rfl⟩ := walks_pure h'
    exact .inl ⟨rfl, rfl⟩
  | none =>
    rw [hv] at h'
    have h₂ := walks_modifyBind (walks_getBind h')
    obtain ⟨rfl, rfl⟩ := walks_pure h₂
    exact .inr ⟨rfl, rfl, rfl⟩

theorem declared_eq_var {name : Ident} (h : p.declared? name = some v) : ∃ l, v = .var l := by
  unfold Program.declared? at h
  split at h
  · exact ⟨_, (Option.some.inj h).symm⟩
  · cases h

/-- The analysis after it tracked a new variable. -/
def Analysis.tracked (a : Analysis) (v : Symbol) : Analysis :=
  { a with slots := a.slots.insert v a.nextSlot, nextSlot := a.nextSlot + 1 }

@[simp]
theorem tracked_self (a : Analysis) (v : Symbol) : (a.tracked v).slots[v]? = some a.nextSlot := by
  simp [Analysis.tracked]

theorem Tidy.tracked (h : Tidy p a) (v : Symbol) : Tidy p (a.tracked v) where
  program := h.program
  below w k hk := by
    simp only [Analysis.tracked, Std.HashMap.getElem?_insert] at hk ⊢
    split at hk
    · grind
    · have := h.below w k hk
      omega
  distinct w u k hw hu := by
    simp only [Analysis.tracked, Std.HashMap.getElem?_insert, beq_iff_eq] at hw hu
    have := h.below w k
    have := h.below u k
    have := h.distinct w u k
    grind
  frames f hf := (h.frames f hf).mono (Nat.le_succ _)

theorem grows_tracked (hv : a.slots[v]? = none) (hl : ∃ l, v = .var l) :
    Grows c [v] a (a.tracked v) where
  kept w k hk := by
    simp only [Analysis.tracked, Std.HashMap.getElem?_insert, beq_iff_eq]
    grind
  fresh w k hw hk := by
    simp only [Analysis.tracked, Std.HashMap.getElem?_insert, beq_iff_eq] at hk
    grind
  nextSlot := Nat.le_succ _
  frames := FramesWeaken.refl _
  reported := Nat.le_refl _

/-- A variable that is tracked comes into scope without a value. -/
theorem sound_enter (hr : Ready p [v] a s) (hl : ∃ l, v = .var l) :
    Sound c p [v] a s (emit [.enter v]) (a.tracked v) (s.forget a.nextSlot) := by
  have fresh := hr.fresh v List.mem_cons_self
  have tidy := hr.tidy.tracked v
  refine ⟨tidy, (hr.below.mono (Nat.le_succ _)).forget, grows_tracked fresh hl, ?_⟩
  rintro - σ _ _ hσ ⟨rfl, rfl⟩
  refine ⟨Concern.safe_enter [v], ?_⟩
  exact ((grows_tracked (c := c) fresh hl).covers hσ).forget tidy.distinct (tracked_self a v)

/-- A variable gets the value of its declaration. -/
theorem sound_init (ht : Tidy p a) (hs : s.Below a.nextSlot) (hv : a.slots[v]? = some n) :
    Sound c p D a s (emit [.init v]) a (s.assign n) := by
  refine ⟨ht, hs.assign (ht.below v n hv), .refl a, ?_⟩
  rintro - σ _ _ hσ ⟨rfl, rfl⟩
  refine ⟨⟨by cases c <;> trivial, trivial⟩, hσ.assign ht.distinct hv (fun w hw => ?_) (.inl ?_)⟩
  · simp only [Store.after_single, Event.effect]
    grind
  · simp [Store.after_single, Event.effect]

/-- The declaration of a variable. -/
theorem walks_trackLocal {name : Ident} {m : Option Nat}
    (hr : Ready p ((p.declared? name).toList ++ D) a s) (hw : Walks (trackLocal name) a m a') :
    p.declared? name = none ∧ m = none ∧ a' = a ∨
      ∃ v, p.declared? name = some v ∧ m = some a.nextSlot ∧ a' = a.tracked v := by
  have hw₁ := walks_getBind hw
  rw [hr.tidy.program] at hw₁
  cases hv : p.declared? name with
  | none =>
    rw [hv] at hw₁
    obtain ⟨rfl, rfl⟩ := walks_pure hw₁
    exact .inl ⟨rfl, rfl, rfl⟩
  | some v =>
    rw [hv] at hw₁ hr
    obtain ⟨k, a₂, hw₂, hw₃⟩ := walks_bind hw₁
    obtain ⟨rfl, rfl⟩ := walks_pure hw₃
    obtain ⟨h, -⟩ | ⟨-, rfl, rfl⟩ := walks_track hw₂
    · simp [hr.fresh v (by simp)] at h
    · exact .inr ⟨v, rfl, rfl, rfl⟩

theorem tracks_bind (name : Ident) :
    Tracks c p (p.declared? name).toList (bind name) (Run.bind p name) := by
  intro s a s' a' hw hr
  obtain ⟨m, a₁, hw₁, hw₂⟩ := walks_bind hw
  unfold Run.bind
  obtain ⟨hv, rfl, rfl⟩ | ⟨v, hv, rfl, rfl⟩ := walks_trackLocal (D := []) (by simpa using hr) hw₁
  · rw [hv] at hr ⊢
    obtain ⟨rfl, rfl⟩ := walks_pure hw₂
    exact sound_skip hr
  · rw [hv] at hr ⊢
    obtain ⟨rfl, rfl⟩ := walks_pure hw₂
    have grows := grows_tracked (c := c) (hr.fresh v (by simp)) (declared_eq_var hv)
    have tidy := hr.tidy.tracked v
    refine ⟨tidy, (hr.below.mono grows.nextSlot).assign (Nat.lt_succ_self _), grows, ?_⟩
    rintro - σ _ _ hσ ⟨rfl, rfl⟩
    refine ⟨Concern.safe_of_allows fun e he σ => ?_,
      (grows.covers hσ).assign tidy.distinct (tracked_self a v) (fun w hw => ?_) (.inl ?_)⟩
    · simp only [List.mem_cons, List.not_mem_nil, or_false] at he
      obtain rfl | rfl := he <;> cases c <;> trivial
    · simp [Store.after, Event.effect, hw.symm]
    · simp [Store.after, Event.effect]

/-! ## Reading -/

theorem still_initializes (f : FieldId) : Still (initializes f) := by
  refine still_get.bind fun a => ?_
  split
  · exact still_pure _
  · split <;> exact still_pure _

theorem keeps_readBlankFinal (f : FieldId) (name : Ident) (s : Inits) :
    Keeps (readBlankFinal f name s) := by
  refine (still_initializes f).keeps.bind fun b => ?_
  split
  · refine (still_slot _).keeps.bind fun n => ?_
    split
    · split
      · exact keeps_pure _
      · exact keeps_report _ _ _
    · exact keeps_pure _
  · exact keeps_pure _

theorem keeps_readField (i : Info) (name : Ident) (s : Inits) : Keeps (readField i name s) := by
  refine (still_known _).keeps.bind fun f => ?_
  split
  · exact still_get.keeps.bind fun a => keeps_readBlankFinal _ _ _
  · exact keeps_pure _

/-- A read is safe if the variable has a value, is out of scope or was reported. -/
theorem sound_read {l : LocalId} (hr : Ready p D a s) (kept : Kept a a')
    (hsafe : c = .reads → c.count a' = c.count a → ∀ n, a.slots[Symbol.var l]? = some n →
      s.isAssigned n) : Sound c p D a s (emit [.read (.var l)]) a' s := by
  refine ⟨kept.tidy hr.tidy, kept.nextSlot ▸ hr.below, kept.grows, ?_⟩
  rintro hq σ _ _ hσ ⟨rfl, rfl⟩
  refine ⟨⟨?_, trivial⟩, ?_⟩
  · cases c with
    | writes => trivial
    | reads =>
      cases hn : a.slots[Symbol.var l]? with
      | some n => exact hσ.not_blank hn (hsafe rfl hq n hn)
      | none =>
        obtain ⟨x, y, rfl, hf⟩ := hσ
        simp [Concern.Allows, hf.untracked l hn]
  · change Covers c p a'.slots s σ
    rwa [kept.slots]

/-- A local variable is read with a value, or the read is reported. -/
theorem checks_read (name : Ident) : Checks c p D (read name) (Run.read p name) := by
  intro s a u a' hw hr
  have hw := walks_knownBind hw
  rw [hr.tidy.program] at hw
  have quiet : Kept a a' → Sound c p D a s .skip a' s := fun kept =>
    .keepBefore kept (sound_skip (hr.kept kept))
  unfold Run.read
  cases hu : p.findings.uses[name.info.id]? with
  | none =>
    rw [hu] at hw
    exact quiet (keeps_pure _ _ _ _ hw)
  | some w =>
    rw [hu] at hw
    cases w with
    | var l =>
      have hw := walks_slotBind hw
      cases hn : a.slots[Symbol.var l]? with
      | none =>
        rw [hn] at hw
        exact sound_read hr (keeps_pure _ _ _ _ hw) (by simp [hn])
      | some n =>
        rw [hn] at hw
        simp only at hw
        split at hw <;> rename_i hassigned
        · exact sound_read hr (keeps_pure _ _ _ _ hw) (by simp [hn, hassigned])
        · refine sound_read hr (keeps_report _ _ _ _ _ _ hw) ?_
          rintro rfl hq
          obtain rfl := walks_report hw
          simp [Concern.count, Concern.watches] at hq
    | field f => exact quiet (keeps_readBlankFinal _ _ _ _ _ _ (walks_getBind hw))
    | _ => exact quiet (keeps_pure _ _ _ _ hw)

/-! ## Assigning -/

/-- What a write does to a store. -/
theorem after_write (σ : Store) (v w : Symbol) :
    σ.after [.write v] w = if v = w then (σ w).written w else σ w := rfl

theorem written_eq (v : Symbol) (st : Status) :
    st.written v = .assigned ∨ st.written v = .absent := by
  unfold Status.written
  split <;> simp

/-- A write that the state need not know of. -/
theorem Covers.write (h : Covers c p a.slots s σ) (hv : c = .reads ∨ p.isFinal v = false) :
    Covers c p a.slots s (σ.after [.write v]) := by
  obtain ⟨x, y, rfl, hf⟩ := h
  refine ⟨x, y, rfl, fun w n hn => ?_, fun l hl => ?_⟩
  · rw [after_write]
    split
    · rename_i hw
      subst hw
      obtain h | h := written_eq v (σ v) <;> rw [h]
      · cases c with
        | reads => simp [Concern.Agrees]
        | writes => simp_all [Concern.Agrees]
      · exact Concern.agrees_absent _ _
    · exact hf.tracked w n hn
  · rw [after_write, hf.untracked l hl]
    split <;> rfl

/-- A write to a tracked variable. -/
theorem Covers.writeTracked (h : Covers c p a.slots s σ) (ht : Tidy p a)
    (hv : a.slots[v]? = some n) : Covers c p a.slots (s.assign n) (σ.after [.write v]) := by
  refine h.assign ht.distinct hv (fun w hw => ?_) ?_
  · rw [after_write, if_neg (Ne.symm hw)]
  · rw [after_write, if_pos rfl]
    exact written_eq v (σ v)

/-- What a write may do to the state: nothing, or note the value. -/
inductive Written (c : Concern) (p : Program) (a : Analysis) (v : Symbol) (s : Inits) :
    Inits → Prop
  | noted {n : Nat} (hn : a.slots[v]? = some n) : Written c p a v s (s.assign n)
  | ignored (hv : c = .reads ∨ p.isFinal v = false ∨
      ∃ l, v = .var l ∧ a.slots[v]? = none) : Written c p a v s s

theorem sound_write (hr : Ready p D a s) (kept : Kept a a') (hs : Written c p a v s s')
    (hsafe : c = .writes → p.isFinal v →
      ∃ n, a.slots[v]? = some n ∧ s.mayBeAssigned n = false) :
    Sound c p D a s (emit [.write v]) a' s' := by
  refine ⟨kept.tidy hr.tidy, ?_, kept.grows, ?_⟩
  · rw [kept.nextSlot]
    cases hs with
    | noted hn => exact hr.below.assign (hr.tidy.below v _ hn)
    | ignored => exact hr.below
  · rintro - σ _ _ hσ ⟨rfl, rfl⟩
    refine ⟨⟨?_, trivial⟩, ?_⟩
    · cases c with
      | reads => trivial
      | writes =>
        intro hfin
        obtain ⟨n, hn, hmay⟩ := hsafe rfl hfin
        exact hσ.not_assigned hn hfin hmay
    · change Covers c p a'.slots s' _
      rw [kept.slots]
      cases hs with
      | noted hn => exact hσ.writeTracked hr.tidy hn
      | ignored hv =>
        obtain hv | hv | ⟨l, rfl, hn⟩ := hv
        · exact hσ.write (.inl hv)
        · exact hσ.write (.inr hv)
        · refine hσ.of_absent fun w => ?_
          obtain ⟨x, y, rfl, hf⟩ := hσ
          have := hf.untracked l hn
          rw [after_write]
          split
          · rename_i hw
            subst hw
            exact .inr (by rw [this]; rfl)
          · exact .inl rfl

/-- A step that reported something of concern need not be safe. -/
theorem sound_reported {B : Behavior} (hr : Ready p D a s) (kept : Kept a a')
    (hq : c.count a' ≠ c.count a) (hs : s'.Below a.nextSlot) : Sound c p D a s B a' s' :=
  ⟨kept.tidy hr.tidy, kept.nextSlot ▸ hs, kept.grows, fun h => absurd h hq⟩

theorem count_report {id : Problem.Id} {i : Info} {args : List Text} {u : Unit}
    (h : Walks (report id i args) a u a') (hc : c.watches id) : c.count a' ≠ c.count a := by
  obtain rfl := walks_report h
  simp [Concern.count, hc]

/-- The state after a local variable is assigned. -/
theorem written_local (l : LocalId) (s : Inits) :
    Written c p a (.var l) s (match a.slots[Symbol.var l]? with
      | some n => s.assign n
      | none => s) := by
  cases hn : a.slots[Symbol.var l]? with
  | some n => exact .noted hn
  | none => exact .ignored (.inr (.inr ⟨l, rfl, hn⟩))

theorem Written.below (h : Written c p a v s s') (ht : Tidy p a) (hs : s.Below a.nextSlot) :
    s'.Below a.nextSlot := by
  cases h with
  | noted hn => exact hs.assign (ht.below v _ hn)
  | ignored => exact hs

theorem sound_writeLocal {l : LocalId} {name : Ident} (hr : Ready p D a s)
    (hw : Walks (write (.var l) name s) a s' a') :
    Sound c p D a s (emit [.write (.var l)]) a' s' := by
  have written := written_local (c := c) (p := p) (a := a) l s
  have hw := walks_slotBind (walks_getBind hw)
  rw [hr.tidy.program] at hw
  simp only at hw
  split at hw <;> rename_i hfin
  · obtain ⟨u, a₁, hw₁, hw₂⟩ := walks_bind hw
    obtain ⟨rfl, rfl⟩ := walks_pure hw₂
    have kept := keeps_report _ _ _ _ _ _ hw₁
    cases c with
    | reads => exact sound_write hr kept written (by simp)
    | writes => exact sound_reported hr kept (count_report hw₁ rfl) (written.below hr.tidy hr.below)
  · obtain ⟨rfl, rfl⟩ := walks_pure hw
    refine sound_write hr (.refl _) written fun _ hf => ?_
    change (p.localEntry l).isFinal = true at hf
    rw [hf] at hfin
    cases hn : a'.slots[Symbol.var l]? with
    | some n => exact ⟨n, rfl, by simpa [hn] using hfin⟩
    | none => simp [hn] at hfin

/-- Assigning a field of the current object or class. -/
theorem sound_writeField {f : FieldId} {name : Ident} (hr : Ready p D a s)
    (hw : Walks (write (.field f) name s) a s' a') :
    Sound c p D a s (emit [.write (.field (p.declaredField f))]) a' s' := by
  have hw := walks_getBind hw
  rw [hr.tidy.program] at hw
  simp only at hw
  split at hw <;> rename_i hfin
  · have hw := walks_slotBind hw
    -- A final field that this place must not assign.
    have reported : ∀ {a₀ : Analysis} (_ : a₀ = a), Walks (do
        report .finalFieldAssignment name.info [name.name]
        pure s) a₀ s' a' →
        Sound c p D a s (emit [.write (.field (p.declaredField f))]) a' s' := by
      rintro _ rfl hw
      obtain ⟨u, a₁, hw₁, hw₂⟩ := walks_bind hw
      obtain ⟨rfl, rfl⟩ := walks_pure hw₂
      have kept := keeps_report _ _ _ _ _ _ hw₁
      cases c with
      | reads => exact sound_write hr kept (.ignored (.inl rfl)) (by simp)
      | writes => exact sound_reported hr kept (count_report hw₁ rfl) hr.below
    cases hn : a.slots[Symbol.field (p.declaredField f)]? with
    | none =>
      rw [hn] at hw
      exact reported rfl hw
    | some n =>
      rw [hn] at hw
      obtain ⟨b, a₁, hw₁, hw₂⟩ := walks_bind hw
      obtain rfl := still_initializes _ _ _ _ hw₁
      split at hw₂
      · split at hw₂ <;> rename_i hmay
        · exact reported rfl hw₂
        · obtain ⟨rfl, rfl⟩ := walks_pure hw₂
          exact sound_write hr (.refl _) (.noted hn) fun _ _ => ⟨n, hn, by simpa using hmay⟩
      · exact reported rfl hw₂
  · obtain ⟨rfl, rfl⟩ := walks_pure hw
    have notFinal : p.isFinal (.field (p.declaredField f)) = false := by
      simpa [Program.isFinal] using hfin
    exact sound_write hr (.refl _) (.ignored (.inr (.inl notFinal))) (by simp [notFinal])

theorem store_of_target {x : Expr} (h : p.target? x = some v) :
    Run.store p x = emit [.write v] := by
  unfold Run.store
  rw [h]

/-- Assigning what an identifier refers to. -/
theorem sound_writeName {w : Symbol} {x : Expr} {i : Info} {name : Ident} (hr : Ready p D a s)
    (hx : x.withoutParens = .name i name) (hu : p.findings.uses[name.info.id]? = some w)
    (hw : Walks (write w name s) a s' a') : Sound c p D a s (Run.store p x) a' s' := by
  cases w with
  | var l =>
    rw [store_of_target (v := .var l) (by simp [Program.target?, hx, hu])]
    exact sound_writeLocal hr hw
  | field f =>
    rw [store_of_target (v := .field (p.declaredField f)) (by simp [Program.target?, hx, hu])]
    exact sound_writeField hr hw
  | type t =>
    rw [store_of_target (v := .type t) (by simp [Program.target?, hx, hu])]
    have hw := walks_getBind hw
    obtain ⟨rfl, rfl⟩ := walks_pure hw
    exact sound_write hr (.refl _) (.ignored (.inr (.inl rfl))) (by simp [Program.isFinal])
  | method m =>
    rw [store_of_target (v := .method m) (by simp [Program.target?, hx, hu])]
    have hw := walks_getBind hw
    obtain ⟨rfl, rfl⟩ := walks_pure hw
    exact sound_write hr (.refl _) (.ignored (.inr (.inl rfl))) (by simp [Program.isFinal])

end Javelin.Flow

/-!
# Assignments are followed

The walk of an expression or condition follows its runs, if the walks of its parts follow theirs.
`Parts` says that they do; the rest of the module goes through the forms of expressions.
-/

namespace Javelin.Flow

open Behavior

/-- The walks of the parts of a tree follow the runs of the parts. -/
structure Parts (c : Concern) (p : Program) (F : Forms) [Visitor] [Meaning] : Prop where
  expr : ∀ x, F.expr x →
    Tracks c p (declarations p (.expr x)) (Visitor.expr x) (Meaning.expr x)
  condition : ∀ x, F.expr x →
    Tracks c p (declarations p (.expr x)) (Visitor.condition x) (Meaning.condition x)
  stmt : ∀ labels st, F.stmt st →
    Tracks c p (declarations p (.stmt st)) (Visitor.stmt labels st) (Meaning.stmt labels st)
  /-- The variables that a statement brings into scope are tracked after it. -/
  declared : ∀ labels st s a s' a', F.stmt st → Walks (Visitor.stmt labels st s) a s' a' →
    Ready p (declarations p (.stmt st)) a s → ∀ v ∈ declaredBy p st, ∃ n, a'.slots[v]? = some n
  patternFree : ∀ x, F.expr x → isPattern x = false
  ofExprStmt : ∀ i x, F.stmt (.expr i x) → F.expr x
  settling : Settling p
  value : ∀ x es r, (Meaning.expr x : Behavior) es r → r = .done ∨ r = .throw
  truth : ∀ x es r, (Meaning.condition x : Behavior) es r → (∃ b, r = .truth b) ∨ r = .throw
  constant : ∀ x es b b', p.constantCondition x = some b →
    (Meaning.condition x : Behavior) es (.truth b') → b' = b

variable {c : Concern} {p : Program} {F : Forms} {D : List Symbol} {a a' : Analysis}
  {s s' : Inits}

namespace Parts

variable [Visitor] [Meaning] (h : Parts c p F)
include h

theorem exprs {xs : List Expr} (hxs : ∀ x ∈ xs, F.expr x) :
    Tracks c p (declaredInExprs p xs) (Flow.exprs xs) (Run.exprs xs) := by
  induction xs with
  | nil => exact tracks_skip
  | cons x xs ih =>
    have first := h.expr x (hxs x List.mem_cons_self)
    exact first.bind (ih fun y hy => hxs y (List.mem_cons_of_mem _ hy))

theorem optional {x : Option Expr} (hx : ∀ y ∈ x, F.expr y) :
    Tracks c p (declaredInExprs p x.toList) (Flow.optional x) (Run.optional x) :=
  h.exprs (by simpa using hx)

theorem exprs_ends {xs : List Expr} {es : List Event} {r : Outcome}
    (hr : Run.exprs xs es r) : r = .done ∨ r = .throw := by
  induction xs generalizing es with
  | nil => exact .inl hr.2
  | cons x xs ih =>
    obtain ⟨hr, -⟩ | ⟨_, _, -, -, hr⟩ := hr
    · exact h.value x es r hr
    · exact ih hr

/-- A constant condition that touches no variable ends with its value or an exception. -/
theorem idle_runs {x : Expr} {b : Bool} (hx : Idles p x) (hc : p.constantCondition x = some b)
    {es : List Event} {r : Outcome}
    (hr : ((Run.exprs (p.qualifiers x)).andThen (finish (.truth b))) es r) :
    (finish (.truth b)).exposed es r := by
  obtain ⟨hr, habrupt⟩ | ⟨e₁, _, rfl, hr, rfl, rfl⟩ := hr
  · obtain rfl := hx b hc es r hr
    obtain rfl | rfl := h.exprs_ends hr
    · cases habrupt
    · exact .inr ⟨rfl, .inl rfl⟩
  · obtain rfl := hx b hc e₁ _ hr
    exact .inl ⟨rfl, rfl⟩

theorem not_done {x : Expr} (es : List Event) : ¬ (Meaning.condition x : Behavior) es .done := by
  intro hr
  obtain ⟨_, hr⟩ | hr := h.truth x es _ hr <;> cases hr

/-! ## Assignments -/

omit h [Visitor] [Meaning] in
/-- Assigning a name whose value is evaluated. -/
theorem storeName {x : Expr} {i : Info} {name : Ident} (hx : x.withoutParens = .name i name) :
    Tracks c p [] (fun s => known (·.uses[name.info.id]?) >>= fun
      | some v => write v name s
      | none => pure s) (Run.store p x) := by
  intro s a s' a' hw hr
  have hw := walks_knownBind hw
  rw [hr.tidy.program] at hw
  cases hu : p.findings.uses[name.info.id]? with
  | some w =>
    rw [hu] at hw
    exact sound_writeName hr hx hu hw
  | none =>
    rw [hu] at hw
    obtain ⟨rfl, rfl⟩ := walks_pure hw
    have : Run.store p x = .skip := by simp [Run.store, Program.target?, hx, hu]
    rw [this]
    exact sound_skip hr

omit h [Visitor] [Meaning] in
/-- Assigning a field of the current object whose value is evaluated. -/
theorem storeOwn {x owner : Expr} {i : Info} {name : Ident}
    (hx : x.withoutParens = .field i owner name) (ho : isThis owner) :
    Tracks c p [] (fun s => match p.findings.fields[i.id]? with
      | some f => write (.field f) name s
      | none => pure s) (Run.store p x) := by
  intro s a s' a' hw hr
  cases hf : p.findings.fields[i.id]? with
  | some f =>
    rw [hf] at hw
    rw [store_of_target (v := .field (p.declaredField f)) (by simp [Program.target?, hx, ho, hf])]
    exact sound_writeField hr hw
  | none =>
    rw [hf] at hw
    obtain ⟨rfl, rfl⟩ := walks_pure hw
    have : Run.store p x = .skip := by simp [Run.store, Program.target?, hx, ho, hf]
    rw [this]
    exact sound_skip hr

omit h [Visitor] [Meaning] in
/-- Assigning a field of another object whose value is evaluated. -/
theorem storeOther {x owner : Expr} {i : Info} {name : Ident}
    (hx : x.withoutParens = .field i owner name) (ho : isThis owner = false) :
    Tracks c p [] (fun s => match p.findings.fields[i.id]? with
      | some f => get >>= fun a => if (a.program.fieldEntry f).isFinal then
          report .finalFieldAssignment name.info [name.name] >>= fun _ => pure s else pure s
      | _ => pure s) (Run.store p x) := by
  intro s a s' a' hw hr
  cases hf : p.findings.fields[i.id]? with
  | none =>
    rw [hf] at hw
    obtain ⟨rfl, rfl⟩ := walks_pure hw
    have : Run.store p x = .skip := by simp [Run.store, Program.target?, hx, ho, hf]
    rw [this]
    exact sound_skip hr
  | some f =>
    rw [hf] at hw
    have hw := walks_getBind hw
    rw [hr.tidy.program] at hw
    have store : Run.store p x = emit [.store f] := by
      simp [Run.store, Program.target?, hx, ho, hf]
    have runs : Kept a a' → (c = .writes → (p.fieldEntry f).isFinal = false) →
        Sound c p [] a s (emit [.store f]) a' s := by
      intro kept safe
      refine ⟨kept.tidy hr.tidy, kept.nextSlot ▸ hr.below, kept.grows, ?_⟩
      rintro - σ _ _ hσ ⟨rfl, rfl⟩
      refine ⟨⟨?_, trivial⟩, ?_⟩
      · cases c with
        | reads => trivial
        | writes => exact safe rfl
      · change Covers c p a'.slots s σ
        rwa [kept.slots]
    rw [store]
    split at hw <;> rename_i hfin
    · obtain ⟨u, a₁, hw₁, hw₂⟩ := walks_bind hw
      obtain ⟨rfl, rfl⟩ := walks_pure hw₂
      have kept := keeps_report _ _ _ _ _ _ hw₁
      cases c with
      | reads => exact runs kept (by simp)
      | writes => exact sound_reported hr kept (count_report hw₁ rfl) hr.below
    · obtain ⟨rfl, rfl⟩ := walks_pure hw
      exact runs (.refl _) fun _ => by simpa using hfin

omit h [Visitor] [Meaning] in
/-- A step that may come first, and what follows it. -/
theorem checkFirst {k : Inits → Analyzer Unit} {m : Inits → Analyzer Inits} {B C : Behavior}
    {b : Bool} (hk : Checks c p [] k B) (hm : Tracks c p D m C) :
    Tracks c p D (fun s => if b then k s >>= fun _ => m s else m s)
      ((if b then B else .skip).andThen C) := by
  cases b with
  | true => exact hk.bind hm
  | false => exact hm.of_imp fun es r hr => (skip_andThen_iff es r).2 hr

theorem assignment {target : Expr} {value : Option Expr} {isCompound : Bool}
    (ht : F.target target) (hv : ∀ y ∈ value, F.expr y) :
    Tracks c p (declarations p (.expr target) ++ declaredInExprs p value.toList)
      (Flow.assignment target value isCompound) (Run.assignment p target value isCompound) := by
  have values := h.optional hv
  rw [← declarations_withoutParens p target]
  unfold Flow.assignment Run.assignment
  unfold Forms.target at ht
  cases hx : target.withoutParens with
  | name i name =>
    have rest := values.bind (storeName (c := c) hx)
    refine (checkFirst (b := isCompound) (checks_read name) rest).sublist ?_
    simp
  | field i owner name =>
    simp only [hx] at ht
    intro s a s' a' hw hr
    have hw := walks_knownBind hw
    rw [hr.tidy.program] at hw
    by_cases ho : isThis owner
    · simp only [ho, if_true] at hw ⊢
      have rest := values.bind (storeOwn (c := c) hx ho)
      have check := checks_skip (c := c) (p := p) (D := []) (keeps_readField i name)
      have first := checkFirst (b := isCompound) check rest
      rw [ite_self] at first
      exact (first.sublist (by simp)) s a s' a' hw hr
    · have owners := h.expr owner (ht.resolve_left ho)
      rw [Bool.not_eq_true] at ho
      simp only [ho, Bool.false_eq_true, if_false] at hw ⊢
      have all := owners.bind (values.bind (storeOther (c := c) hx ho))
      refine (all.sublist ?_) s a s' a' hw hr
      simp [declarations_expr (x := .field i owner name) (by simp), Node.ofExpr]
  | index i array y =>
    simp only [hx] at ht
    have parts := (h.expr array ht.1).bind ((h.expr y ht.2).bind values)
    rw [declarations_expr (by simp)]
    simpa [Node.ofExpr] using parts
  | _ =>
    simp only [hx] at ht
    have := (h.expr target ht).bind values
    rw [← declarations_withoutParens p target, hx] at this
    exact this

end Parts

end Javelin.Flow
