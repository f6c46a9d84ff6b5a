import Javelin.Proofs.Types.Candidates

/-!
# Which overload is chosen

Overload resolution asks which methods are visible, which arguments fit which parameters and which
types are subtypes of which. An `Outlook` holds the answers to these questions for one invocation.
They do not depend on the world that is asked, although every question may hand out new numbers of
types and methods; so the answers are about what the numbers denote.

With such answers the method that is found comes from the first phase in which a visible candidate
is applicable, and is at least as specific as all other candidates of that phase. The order of the
candidates decides neither whether there is such a method nor which problem is reported
(`Outlook.findMethod_chosen`).

1. Outlooks.
2. Parameters, applicable methods and the most specific of them.
3. The choice.
-/

namespace Javelin.Lookup

open Run

/-! ## Outlooks -/

/-- The worlds in which the questions about an invocation have the given answers. -/
structure Outlook [Answers] {τ : Type} (o : Facts τ) (args : List Arg) (place target : TypeId)
    (s : Sight τ) : Prop where
  /-- The row of a method shows its profile. -/
  traits : ∀ {w m p}, s.Valid w → s.Has w m p → (w.methods.getD m.index {}).traits = p.traits
  generic : ∀ {w m p}, s.Valid w → s.Has w m p →
    (w.methods.getD m.index {}).typeVars.isEmpty = !p.isGeneric
  params : ∀ {w m p}, s.Valid w → s.Has w m p →
    List.Forall₂ (s.Denotes w) (w.methods.getD m.index {}).params p.params
  /-- A number denotes one type. -/
  unique : ∀ {w t x y}, s.Valid w → s.Denotes w t x → s.Denotes w t y → x = y
  visible : ∀ {w m}, s.Valid w → s.Has w m (o.profile m) →
    s.Yields w (do let e ← methodEntry m; isVisible e.traits e.declaring place)
      fun _ b => b = o.visible m
  /-- Inference instantiates a generic method. -/
  infers : ∀ {w m}, s.Valid w → s.Has w m (o.profile m) → (o.profile m).isGeneric = true →
    s.Yields w (inferMethod m args target) fun v k => s.Has v k (o.instantiated m)
  /-- A copy of a method has its traits and as many parameters. -/
  copies : ∀ m, (o.instantiated m).traits = (o.profile m).traits ∧
    (o.instantiated m).params.length = (o.profile m).params.length
  plain : ∀ m, (o.profile m).isGeneric = false → o.instantiated m = o.profile m
  fits : ∀ {w t x a} (ph : Phase), s.Valid w → a ∈ args → s.Denotes w t x →
    s.Yields w (argFits a t ph) fun _ b => b = o.fits a x ph
  subtype : ∀ {w t u x y}, s.Valid w → s.Denotes w t x → s.Denotes w u y →
    s.Yields w (isSubtype t u) fun _ b => b = o.subtype x y
  subtype_refl : ∀ x, o.subtype x x = true
  element : ∀ {w t x}, s.Valid w → s.Denotes w t x →
    s.Yields w (elementType t) fun v e => s.Denotes v e (o.element x)
  erasure : ∀ {w t x}, s.Valid w → s.Denotes w t x →
    s.Yields w (erasure t) fun v e => s.Denotes v e (o.erased x)
  /-- The same erasure has the same number. -/
  erased : ∀ {w t u x}, s.Valid w → s.Denotes w t (o.erased x) → s.Denotes w u (o.erased x) → t = u

namespace Outlook

variable [Answers] {τ : Type} {o : Facts τ} {args : List Arg} {place target : TypeId}
  {s : Sight τ} (h : Outlook o args place target s) {w v : World}
include h

/-! ## Parameters -/

omit [Answers] h in
theorem denotes_param {e : MethodEntry} {p : Profile τ} {i : Nat}
    (hparams : List.Forall₂ (s.Denotes w) e.params p.params) (hi : i < p.params.length) :
    s.Denotes w (e.params.getD i .none) p.params[i] := by
  have hi' : i < e.params.length := hparams.length_eq ▸ hi
  rw [List.getD_eq_getElem?_getD, List.getElem?_eq_getElem hi', Option.getD_some]
  exact hparams.get hi' hi

/-- The parameter that takes an argument, if there is one. -/
theorem yields_paramAt {e : MethodEntry} {p : Profile τ} {isVarargs : Bool} {i : Nat}
    (hw : s.Valid w) (hparams : List.Forall₂ (s.Denotes w) e.params p.params)
    (hi : isVarargs = true ∧ p.params ≠ [] ∨ isVarargs = false ∧ i < p.params.length) :
    s.Yields w (paramAt e isVarargs i) fun v t =>
      ∃ x, p.paramAt? o.element isVarargs i = some x ∧ s.Denotes v t x := by
  unfold paramAt Profile.paramAt?
  dsimp only
  rw [hparams.length_eq]
  split
  next hspread =>
    have hne : p.params ≠ [] := by
      obtain ⟨-, hne⟩ | ⟨hfalse, -⟩ := hi
      · exact hne
      · rw [hfalse, Bool.false_and] at hspread
        cases hspread
    have hpos : 0 < p.params.length := List.length_pos_iff.2 hne
    refine (h.element hw (denotes_param hparams (Nat.sub_lt hpos Nat.one_pos))).mono
      fun v e _ he => ⟨_, ?_, he⟩
    rw [List.getLast?_eq_getElem?, List.getElem?_eq_getElem (Nat.sub_lt hpos Nat.one_pos)]
    rfl
  next hplain =>
    have hlt : i < p.params.length := by
      obtain ⟨htrue, -⟩ | ⟨-, hlt⟩ := hi
      · rw [htrue, Bool.true_and, decide_eq_true_eq] at hplain
        omega
      · exact hlt
    exact Sight.yields_pure hw ⟨_, List.getElem?_eq_getElem hlt, denotes_param hparams hlt⟩

/-! ## Applicable methods -/

/-- What a candidate is called with: the candidate itself, or a copy with inferred arguments. -/
def Calls (args : List Arg) (target : TypeId) (o : Facts τ) (s : Sight τ) (w : World)
    (m k : MethodId) : Prop :=
  s.Has w k (o.instantiated m) ∧ (k = m ∨ ∃ v u, inferMethod m args target v = .ok k u)

omit h in
theorem Calls.mono {m k : MethodId} (hv : s.Grows w v) (hk : Calls args target o s w m k) :
    Calls args target o s v m k :=
  ⟨hv.has hk.1, hk.2⟩

/-- What the number of arguments says about the parameters of the method that is called. -/
theorem arity_of_count {ph : Phase} {m : MethodId}
    (harity : (if ph == .varargs then (o.profile m).isVarargs &&
        decide ((o.profile m).params.length ≤ args.length + 1)
      else args.length == (o.profile m).params.length) = true) :
    (ph == .varargs) = true ∧ (o.instantiated m).params ≠ [] ∨
      (ph == .varargs) = false ∧ args.length = (o.instantiated m).params.length := by
  obtain ⟨htraits, hlen⟩ := h.copies m
  cases hph : ph == .varargs with
  | true =>
    rw [hph, if_pos rfl, Bool.and_eq_true] at harity
    refine .inl ⟨rfl, (o.instantiated m).spreads ?_⟩
    rw [htraits]
    exact harity.1
  | false =>
    rw [hph, if_neg Bool.false_ne_true, beq_iff_eq] at harity
    exact .inr ⟨rfl, harity.trans hlen.symm⟩

/-- The arguments are matched with the parameters of the method that is called. -/
theorem yields_fits {ph : Phase} {m k : MethodId} (hw : s.Valid w)
    (hk : Calls args target o s w m k)
    (harity : (ph == .varargs) = true ∧ (o.instantiated m).params ≠ [] ∨
      (ph == .varargs) = false ∧ args.length = (o.instantiated m).params.length) :
    s.Yields w (do
        let e ← methodEntry k
        let fits ← allM (fun x => do argFits x.1 (← paramAt e (ph == .varargs) x.2) ph) args.zipIdx
        return if fits then some k else none) fun v r =>
      let fits := args.zipIdx.all fun (a, i) =>
        ((o.instantiated m).paramAt? o.element (ph == .varargs) i).all (o.fits a · ph)
      (∃ k, fits = true ∧ r = some k ∧ Calls args target o s v m k) ∨ (fits = false ∧ r = none) := by
  refine (Sight.yields_methodEntry hw).bind fun _ _ _ hv => ?_
  obtain ⟨rfl, rfl⟩ := hv
  refine Sight.Yields.bind (P := fun _ b => b = args.zipIdx.all fun (a, i) =>
    ((o.instantiated m).paramAt? o.element (ph == .varargs) i).all (o.fits a · ph))
    (Sight.yields_allM (R := fun _ x y => x = y) hw (fun _ hx => hx) (Sight.pairs_self _)
      fun (a, i) hai _ v hv heq => ?_) fun v fits hv hfits => ?_
  · subst heq
    obtain ⟨-, hi, ha⟩ := List.mem_zipIdx hai
    rw [Nat.zero_add] at hi
    have hat : (ph == .varargs) = true ∧ (o.instantiated m).params ≠ [] ∨
        (ph == .varargs) = false ∧ i < (o.instantiated m).params.length :=
      harity.imp id fun ⟨hph, hlen⟩ => ⟨hph, hlen ▸ hi⟩
    have hparams := (h.params hw hk.1).imp fun _ _ => hv.denotes
    refine (h.yields_paramAt hv.valid hparams hat).bind fun u t hu ht => ?_
    obtain ⟨x, hx, ht⟩ := ht
    refine (h.fits ph hu.valid (ha ▸ List.getElem_mem _) ht).mono fun _ b _ hb => ?_
    dsimp only at hb ⊢
    rw [hb, hx, Option.all_some]
  · cases hall : fits with
    | false => exact Sight.yields_pure hv.valid (.inr ⟨hfits.symm.trans hall, rfl⟩)
    | true => exact Sight.yields_pure hv.valid (.inl ⟨k, hfits.symm.trans hall, rfl, hk.mono hv⟩)

theorem yields_applicable {ph : Phase} {m : MethodId} (hw : s.Valid w)
    (hm : s.Has w m (o.profile m)) :
    s.Yields w (applicable m args ph target) fun v r =>
      (∃ k, o.applies args ph m = true ∧ r = some k ∧ Calls args target o s v m k) ∨
        (o.applies args ph m = false ∧ r = none) := by
  have hcount : (if ph == .varargs then (w.methods.getD m.index {}).isVarargs &&
        decide ((w.methods.getD m.index {}).params.length ≤ args.length + 1)
      else args.length == (w.methods.getD m.index {}).params.length) =
      (if ph == .varargs then (o.profile m).isVarargs &&
        decide ((o.profile m).params.length ≤ args.length + 1)
      else args.length == (o.profile m).params.length) := by
    rw [MethodEntry.isVarargs, h.traits hw hm, (h.params hw hm).length_eq]
    rfl
  unfold applicable Facts.applies
  refine (Sight.yields_methodEntry hw).bind fun _ _ _ hv => ?_
  obtain ⟨rfl, rfl⟩ := hv
  dsimp only
  rw [hcount]
  cases hfits : (if ph == .varargs then (o.profile m).isVarargs &&
      decide ((o.profile m).params.length ≤ args.length + 1)
    else args.length == (o.profile m).params.length) with
  | false => exact Sight.yields_pure hw (.inr ⟨by rw [Bool.false_and], rfl⟩)
  | true =>
    have harity := h.arity_of_count hfits
    rw [Bool.true_and, if_pos rfl, h.generic hw hm]
    cases hg : (o.profile m).isGeneric with
    | false =>
      have hk : Calls args target o s _ m m := ⟨(h.plain m hg).symm ▸ hm, .inl rfl⟩
      exact h.yields_fits hw hk harity
    | true =>
      obtain ⟨k, v, hrun, hv, hk⟩ := h.infers hw hm hg
      have hcalls : s.Yields _ (inferMethod m args target) fun v k =>
          Calls args target o s v m k := ⟨k, v, hrun, hv, hk, .inr ⟨_, v, hrun⟩⟩
      exact hcalls.bind fun u k hu hk => h.yields_fits hu.valid hk harity

theorem arity_of_applies {ph : Phase} {m : MethodId} (hm : o.applies args ph m = true) :
    (ph == .varargs) = true ∧ (o.instantiated m).params ≠ [] ∨
      (ph == .varargs) = false ∧ args.length = (o.instantiated m).params.length :=
  h.arity_of_count (Bool.and_eq_true_iff.1 hm).1

/-! ## The most specific methods -/

/-- Methods that are called for the given candidates. -/
def AllCalled (args : List Arg) (target : TypeId) (o : Facts τ) (s : Sight τ) (w : World) :
    List MethodId → List MethodId → Prop :=
  List.Forall₂ (Calls args target o s w)

theorem yields_isMoreSpecific {ph : Phase} {m m' k k' : MethodId} (hw : s.Valid w)
    (hm : o.applies args ph m = true) (hm' : o.applies args ph m' = true)
    (hk : s.Has w k (o.instantiated m)) (hk' : s.Has w k' (o.instantiated m')) :
    s.Yields w (isMoreSpecific k k' (ph == .varargs) args.length) fun _ b =>
      b = o.isMoreSpecific args ph m m' := by
  have hparams := h.params hw hk
  have hparams' := h.params hw hk'
  unfold isMoreSpecific Facts.isMoreSpecific Profile.comparedCount
  refine (Sight.yields_methodEntry hw).bind fun _ _ _ hv => ?_
  obtain ⟨rfl, rfl⟩ := hv
  refine (Sight.yields_methodEntry hw).bind fun _ _ _ hv => ?_
  obtain ⟨rfl, rfl⟩ := hv
  dsimp only
  rw [hparams.length_eq, hparams'.length_eq]
  refine Sight.yields_allM (R := fun _ x y => x = y) hw (fun _ hx => hx) (Sight.pairs_self _)
    fun i hi _ v hv heq => ?_
  subst heq
  -- Both methods have a parameter at each position that is compared.
  have hat : (ph == .varargs) = true ∧ (o.instantiated m).params ≠ [] ∧
      (o.instantiated m').params ≠ [] ∨ (ph == .varargs) = false ∧
      i < (o.instantiated m).params.length ∧ i < (o.instantiated m').params.length := by
    obtain ⟨hph, hne⟩ | ⟨hph, hlen⟩ := h.arity_of_applies hm
    · obtain ⟨-, hne'⟩ | ⟨hph', -⟩ := h.arity_of_applies hm'
      · exact .inl ⟨hph, hne, hne'⟩
      · rw [hph] at hph'
        cases hph'
    · obtain ⟨hph', -⟩ | ⟨-, hlen'⟩ := h.arity_of_applies hm'
      · rw [hph] at hph'
        cases hph'
      · rw [hph, if_neg Bool.false_ne_true, List.mem_range] at hi
        exact .inr ⟨hph, hi, by omega⟩
  have hgrown := hparams.imp fun _ _ => hv.denotes
  refine (h.yields_paramAt hv.valid hgrown (hat.imp (.imp id And.left) (.imp id And.left))).bind
    fun u t hu ht => ?_
  obtain ⟨x, hx, ht⟩ := ht
  have hgrown' := hparams'.imp fun _ _ => (hv.trans hu).denotes
  refine (h.yields_paramAt hu.valid hgrown' (hat.imp (.imp id And.right) (.imp id And.right))).bind
    fun u' t' hu' ht' => ?_
  obtain ⟨y, hy, ht'⟩ := ht'
  refine (h.subtype hu'.valid (hu'.denotes ht) ht').mono fun _ b _ hb => ?_
  rw [hb, hx, hy]

theorem params_unique {ts : List TypeId} {xs ys : List τ} (hw : s.Valid w)
    (hx : List.Forall₂ (s.Denotes w) ts xs) (hy : List.Forall₂ (s.Denotes w) ts ys) : xs = ys := by
  induction hx generalizing ys with
  | nil => cases hy; rfl
  | cons hd _ ih =>
    cases hy with
    | cons hd' hy => rw [h.unique hw hd hd', ih hy]

/-- A method is as specific as one that has the same number. -/
theorem isMoreSpecific_same {ph : Phase} {m m' k : MethodId} (hw : s.Valid w)
    (hk : s.Has w k (o.instantiated m)) (hk' : s.Has w k (o.instantiated m')) :
    o.isMoreSpecific args ph m m' = true := by
  have hsame := h.params_unique hw (h.params hw hk) (h.params hw hk')
  unfold Facts.isMoreSpecific
  refine List.all_eq_true.2 fun i _ => ?_
  unfold Profile.paramAt?
  rw [hsame]
  split
  next x y hx hy =>
    rw [hx] at hy
    cases hy
    exact h.subtype_refl x
  next => rfl

theorem yields_sameErasures [DecidableEq τ] {as bs : List TypeId} {xs ys : List τ}
    (hw : s.Valid w) (has : List.Forall₂ (s.Denotes w) as xs)
    (hbs : List.Forall₂ (s.Denotes w) bs ys) :
    s.Yields w (sameErasures as bs) fun _ b => b = decide (xs.map o.erased = ys.map o.erased) := by
  unfold sameErasures
  rw [has.length_eq, hbs.length_eq]
  by_cases hlen : xs.length = ys.length
  · rw [if_neg (by simp [hlen])]
    have hall : decide (xs.map o.erased = ys.map o.erased) =
        (xs.zip ys).all fun (x, y) => decide (o.erased x = o.erased y) := by
      clear has hbs
      induction xs generalizing ys with
      | nil => cases ys with
        | nil => rfl
        | cons => cases hlen
      | cons x xs ih => cases ys with
        | nil => cases hlen
        | cons y ys =>
          rw [List.zip_cons_cons, List.all_cons, ← ih (Nat.succ.inj hlen), ← Bool.decide_and]
          simp
    rw [hall]
    refine Sight.yields_allM
      (R := fun w (x : τ × τ) (t : TypeId × TypeId) => s.Denotes w t.1 x.1 ∧ s.Denotes w t.2 x.2)
      hw (fun hv ht => ⟨hv.denotes ht.1, hv.denotes ht.2⟩) ?_ fun (x, y) _ (t, u) v hv ht => ?_
    · clear hall hlen
      induction has generalizing bs ys with
      | nil => exact .nil
      | cons hd _ ih => cases hbs with
        | nil => exact .nil
        | cons hd' hbs => exact .cons ⟨hd, hd'⟩ (ih hbs)
    · refine (h.erasure hv.valid ht.1).bind fun v' t' hv' ht' => ?_
      refine (h.erasure hv'.valid (hv'.denotes ht.2)).bind fun u' t'' hu' ht'' => ?_
      refine Sight.yields_pure hu'.valid ?_
      have hleft := hu'.denotes ht'
      dsimp only at hleft ht'' ⊢
      by_cases heq : o.erased x = o.erased y
      · rw [← heq] at ht''
        rw [h.erased hu'.valid hleft ht'', beq_self_eq_true, decide_eq_true heq]
      · rw [decide_eq_false heq, beq_eq_false_iff_ne]
        rintro rfl
        exact heq (h.unique hu'.valid hleft ht'')
  · rw [if_pos (by simpa using hlen)]
    refine Sight.yields_pure hw (decide_eq_false fun heq => hlen ?_).symm
    simpa using congrArg List.length heq

/-- Whether the method that is called for a candidate is abstract. -/
theorem abstract_of_calls {m k : MethodId} (hw : s.Valid w)
    (hk : Calls args target o s w m k) :
    (w.methods.getD k.index {}).isAbstract = o.isAbstract m := by
  rw [MethodEntry.isAbstract, h.traits hw hk.1]
  rfl

/-- The methods that are at least as specific as all others. The test leaves the method itself out,
which is as specific as itself. -/
theorem yields_best {ph : Phase} {ms ks : List MethodId} (hw : s.Valid w)
    (hms : ∀ m ∈ ms, o.applies args ph m = true) (hks : AllCalled args target o s w ms ks) :
    s.Yields w (ks.filterM fun m => allM (fun k =>
        if k == m then return true else isMoreSpecific m k (ph == .varargs) args.length) ks)
      fun v top => AllCalled args target o s v (o.best args ph ms) top := by
  refine Sight.yields_filterM (q := fun m => ms.all (o.isMoreSpecific args ph m)) hw Calls.mono hks
    fun m hm k v hv hk => ?_
  refine Sight.yields_allM (R := Calls args target o s) hv.valid Calls.mono
    (hks.imp fun _ _ => Calls.mono hv) fun m' hm' k' u hu hk' => ?_
  split
  next heq =>
    obtain rfl := eq_of_beq heq
    refine Sight.yields_pure hu.valid ?_
    exact (h.isMoreSpecific_same hu.valid (hu.has hk.1) hk'.1).symm
  next => exact h.yields_isMoreSpecific hu.valid (hms m hm) (hms m' hm') (hu.has hk.1) hk'.1

/-- The search for a method that is not abstract. -/
theorem yields_concrete {ms ks : List MethodId} (hw : s.Valid w)
    (hks : AllCalled args target o s w ms ks) :
    s.Yields w (forIn ks (none, ()) fun k _ => do
        let e ← methodEntry k
        if e.isAbstract then pure (.yield (none, ()))
        else pure (.done (some (k, (none : Option Problem.Id)), ()))) fun v r =>
      (∃ m k, ms.find? (!o.isAbstract ·) = some m ∧ r = (some k, ()) ∧
        k.2 = none ∧ Calls args target o s v m k.1) ∨
      (ms.find? (!o.isAbstract ·) = none ∧ r = (none, ())) := by
  refine Sight.yields_search (R := Calls args target o s) hw Calls.mono hks fun m _ k v hv hk => ?_
  refine (Sight.yields_methodEntry hv.valid).bind fun _ _ _ he => ?_
  obtain ⟨rfl, rfl⟩ := he
  rw [h.abstract_of_calls hv.valid hk]
  cases o.isAbstract m with
  | true => exact Sight.yields_pure hv.valid (.inr ⟨rfl, rfl⟩)
  | false => exact Sight.yields_pure hv.valid (.inl ⟨_, rfl, rfl, rfl, hk⟩)

/-- The search for a method the parameters of which have other erasures. -/
theorem yields_otherErasures [DecidableEq τ] {m : MethodId} {ms ks : List MethodId}
    {e : MethodEntry} {found : MethodId × Option Problem.Id} (hw : s.Valid w)
    (hks : AllCalled args target o s w ms ks)
    (he : List.Forall₂ (s.Denotes w) e.params (o.instantiated m).params) :
    s.Yields w (forIn ks (none, ()) fun k _ => do
        let e' ← methodEntry k
        let same ← sameErasures e'.params e.params
        if same then pure (.yield (none, ())) else pure (.done (some found, ()))) fun _ r =>
      (∃ k c, ms.find? (fun k => !decide (o.erasures k = o.erasures m)) = some k ∧
        r = (some c, ()) ∧ c = found) ∨
      (ms.find? (fun k => !decide (o.erasures k = o.erasures m)) = none ∧ r = (none, ())) := by
  refine Sight.yields_search (R := Calls args target o s) (Q := fun _ _ c => c = found) hw
    Calls.mono hks fun k _ k' v hv hk => ?_
  refine (Sight.yields_methodEntry hv.valid).bind fun _ _ _ he' => ?_
  obtain ⟨rfl, rfl⟩ := he'
  refine (h.yields_sameErasures hv.valid (h.params hv.valid hk.1)
    (he.imp fun _ _ => hv.denotes)).bind fun u same hu hsame => ?_
  change same = decide (o.erasures k = o.erasures m) at hsame
  rw [← hsame]
  cases same with
  | true => exact Sight.yields_pure hu.valid (.inr ⟨rfl, rfl⟩)
  | false => exact Sight.yields_pure hu.valid (.inl ⟨_, rfl, rfl, rfl⟩)

/-- Of the methods that are called for applicable candidates the most specific one is taken. -/
theorem yields_mostSpecific [DecidableEq τ] {ph : Phase} {ms ks : List MethodId}
    (hw : s.Valid w) (hms : ∀ m ∈ ms, o.applies args ph m = true)
    (hks : AllCalled args target o s w ms ks) :
    s.Yields w (mostSpecific ks (ph == .varargs) args.length) fun v r =>
      r.2 = (if o.isDecided (o.best args ph ms) then none else some .ambiguousMethod) ∧
        (r.2 = none → ∃ m ∈ o.best args ph ms, Calls args target o s v m r.1) := by
  unfold mostSpecific
  refine (h.yields_best hw hms hks).bind fun v top hv htop => ?_
  generalize o.best args ph ms = best at htop
  cases htop with
  | nil => exact Sight.yields_pure hv.valid ⟨rfl, nofun⟩
  | @cons m first best top hfirst htop =>
  cases htop with
  | nil =>
    refine Sight.yields_pure hv.valid ⟨?_, fun _ => ⟨m, List.mem_cons_self, hfirst⟩⟩
    rw [Facts.isDecided_singleton, if_pos rfl]
  | @cons m' second best top hsecond htop =>
  have hrest : AllCalled args target o s v (m' :: best) (second :: top) := .cons hsecond htop
  dsimp only
  generalize m' :: best = rest at hrest ⊢
  generalize second :: top = others at hrest ⊢
  refine (h.yields_concrete hv.valid (.cons hfirst hrest)).bind fun u r hu hr => ?_
  obtain ⟨c, ⟨k, problem⟩, hfound, rfl, hnone, hk⟩ | ⟨habstract, rfl⟩ := hr
  · cases hnone
    have hc := List.mem_of_find?_eq_some hfound
    refine Sight.yields_pure hu.valid ⟨?_, fun _ => ⟨c, hc, hk⟩⟩
    rw [Facts.isDecided_concrete hc (List.find?_some (p := (!o.isAbstract ·)) hfound), if_pos rfl]
  refine (Sight.yields_methodEntry hu.valid).bind fun _ _ _ he => ?_
  obtain ⟨rfl, rfl⟩ := he
  refine (h.yields_otherErasures hu.valid (hrest.imp fun _ _ => Calls.mono hu)
    (h.params hu.valid (hu.has hfirst.1))).bind fun x r hx hr => ?_
  rw [Facts.isDecided_abstract habstract]
  obtain ⟨c, k, hfound, rfl, rfl⟩ | ⟨hsame, rfl⟩ := hr
  · refine Sight.yields_pure hx.valid ⟨?_, nofun⟩
    rw [List.all_eq_false.2 ⟨c, List.mem_of_find?_eq_some hfound, ?_⟩]
    · rfl
    · simpa using (List.find?_eq_some_iff_append.1 hfound).1
  · refine Sight.yields_pure hx.valid
      ⟨?_, fun _ => ⟨m, List.mem_cons_self, (hfirst.mono hu).mono hx⟩⟩
    rw [List.all_eq_true.2 fun k hk => by simpa using List.find?_eq_none.1 hsame k hk, if_pos rfl]

/-! ## The choice -/

theorem yields_visible {cs : List MethodId} (hw : s.Valid w)
    (hcs : ∀ m ∈ cs, s.Has w m (o.profile m)) :
    s.Yields w (cs.filterM fun m => do
        let e ← methodEntry m
        isVisible e.traits e.declaring place) fun v vs =>
      vs = cs.filter o.visible ∧ ∀ m ∈ cs, s.Has v m (o.profile m) := by
  have hpairs : List.Forall₂ (fun a b => a = b ∧ s.Has w a (o.profile a)) cs cs :=
    List.forall₂_same.2 fun m hm => ⟨rfl, hcs m hm⟩
  refine (Sight.yields_filterM (q := o.visible)
    (R := fun w a b => a = b ∧ s.Has w a (o.profile a)) hw (fun hv ha => ⟨ha.1, hv.has ha.2⟩)
    hpairs fun m _ k v hv hk => ?_).mono fun v vs hv hvs => ?_
  · obtain ⟨rfl, hm⟩ := hk
    exact h.visible hv.valid hm
  · exact ⟨(Sight.eq_of_pairs hvs).1, fun m hm => hv.has (hcs m hm)⟩

theorem yields_fitting {ph : Phase} {vs : List MethodId} (hw : s.Valid w)
    (hvs : ∀ m ∈ vs, s.Has w m (o.profile m)) :
    s.Yields w (vs.filterMapM fun m => applicable m args ph target) fun v ks =>
      AllCalled args target o s v (vs.filter (o.applies args ph)) ks :=
  Sight.yields_filterMapM hw Calls.mono fun m hm _ hv =>
    h.yields_applicable hv.valid (hv.has (hvs m hm))

/-- The first phase with applicable candidates decides. -/
theorem yields_phases [DecidableEq τ] {cs : List MethodId} (hw : s.Valid w)
    (hcs : ∀ m ∈ cs, s.Has w m (o.profile m)) :
    s.Yields w (forIn phases (none, ()) fun ph _ => do
        let fitting ← (cs.filter o.visible).filterMapM fun m => applicable m args ph target
        if fitting.isEmpty then pure (.yield (none, ()))
        else do
          let r ← mostSpecific fitting (ph == .varargs) args.length
          pure (.done (some r, ()))) fun v r =>
      (∃ ph k, phases.find? (fun ph => !(o.fitting args cs ph).isEmpty) = some ph ∧
        r = (some k, ()) ∧
        k.2 = (if o.isDecided (o.best args ph (o.fitting args cs ph)) then none
          else some .ambiguousMethod) ∧
        (k.2 = none → ∃ m ∈ o.best args ph (o.fitting args cs ph),
          Calls args target o s v m k.1)) ∨
      (phases.find? (fun ph => !(o.fitting args cs ph).isEmpty) = none ∧ r = (none, ())) := by
  refine Sight.yields_search (R := fun _ x y => x = y) hw (fun _ hx => hx) (Sight.pairs_self _)
    fun ph _ _ v hv heq => ?_
  subst heq
  have hvs : ∀ m ∈ cs.filter o.visible, s.Has v m (o.profile m) :=
    fun m hm => hv.has (hcs m (List.mem_of_mem_filter hm))
  refine (h.yields_fitting hv.valid hvs).bind fun u ks hu hks => ?_
  have hempty : ks.isEmpty = (o.fitting args cs ph).isEmpty := by
    rw [Bool.eq_iff_iff, List.isEmpty_iff_length_eq_zero, List.isEmpty_iff_length_eq_zero,
      ← hks.length_eq]
    rfl
  rw [hempty]
  cases (o.fitting args cs ph).isEmpty with
  | true => exact Sight.yields_pure hu.valid (.inr ⟨rfl, rfl⟩)
  | false =>
    refine (h.yields_mostSpecific hu.valid (fun m hm => (List.mem_filter.1 hm).2) hks).bind
      fun x r hx hr => ?_
    exact Sight.yields_pure hx.valid (.inl ⟨r, rfl, rfl, hr⟩)

/-- The search for a phase in which a candidate is applicable. -/
theorem yields_anyPhase {m : MethodId} {found : MethodId × Option Problem.Id} (hw : s.Valid w)
    (hm : s.Has w m (o.profile m)) :
    s.Yields w (forIn phases (none, ()) fun ph _ => do
        let k ← applicable m args ph target
        if k.isSome then pure (.done (some found, ())) else pure (.yield (none, ()))) fun _ r =>
      (phases.any (o.applies args · m) = true ∧ r = (some found, ())) ∨
        (phases.any (o.applies args · m) = false ∧ r = (none, ())) := by
  refine (Sight.yields_search (R := fun _ x y => x = y) (q := (o.applies args · m))
    (Q := fun _ _ k => k = found) hw (fun _ hx => hx) (Sight.pairs_self _)
    fun ph _ _ v hv heq => ?_).mono fun v r _ hr => ?_
  · subst heq
    refine (h.yields_applicable hv.valid (hv.has hm)).bind fun u r hu hr => ?_
    obtain ⟨k, happlies, rfl, -⟩ | ⟨happlies, rfl⟩ := hr
    · exact Sight.yields_pure hu.valid (.inl ⟨found, happlies, rfl, rfl⟩)
    · exact Sight.yields_pure hu.valid (.inr ⟨happlies, rfl⟩)
  obtain ⟨ph, k, hfound, rfl, rfl⟩ | ⟨hnone, rfl⟩ := hr
  · have happlies := List.find?_some (p := (o.applies args · m)) hfound
    exact .inl ⟨List.any_eq_true.2 ⟨ph, List.mem_of_find?_eq_some hfound, happlies⟩, rfl⟩
  · exact .inr ⟨List.any_eq_false.2 (List.find?_eq_none.1 hnone), rfl⟩

theorem yields_findMethod [DecidableEq τ] {cs : List MethodId} (hw : s.Valid w)
    (hcs : ∀ m ∈ cs, s.Has w m (o.profile m)) :
    s.Yields w (findMethod cs args place target) fun v r =>
      r.2 = o.verdict args cs ∧
        (r.2 = none → ∃ ph m, o.IsFirst args cs ph ∧
          m ∈ o.best args ph (o.fitting args cs ph) ∧ Calls args target o s v m r.1) := by
  unfold findMethod Facts.verdict
  refine (h.yields_visible hw hcs).bind fun v vs hv hvs => ?_
  obtain ⟨rfl, hcs⟩ := hvs
  refine (h.yields_phases hv.valid hcs).bind fun u r hu hr => ?_
  obtain ⟨ph, k, hfirst, rfl, hproblem, hchosen⟩ | ⟨hnone, rfl⟩ := hr
  · refine Sight.yields_pure hu.valid ⟨by rw [hfirst]; exact hproblem, fun hk => ?_⟩
    obtain ⟨m, hm, hcalls⟩ := hchosen hk
    exact ⟨ph, m, Facts.isFirst_of_find? hfirst, hm, hcalls⟩
  rw [hnone]
  dsimp only
  split
  next =>
    -- A candidate that is applicable was left out because it is not visible.
    refine (Sight.yields_search (R := fun _ x y => x = y)
      (q := fun m => phases.any (o.applies args · m))
      (Q := fun _ m k => k = (m, some Problem.Id.notVisible)) hu.valid (fun _ hx => hx)
      (Sight.pairs_self cs) fun m hm _ x hx heq => ?_).bind fun x r hx hr => ?_
    · subst heq
      refine (h.yields_anyPhase hx.valid ((hu.trans hx).has (hcs m hm))).bind fun y r hy hr => ?_
      obtain ⟨happlies, rfl⟩ | ⟨happlies, rfl⟩ := hr
      · exact Sight.yields_pure hy.valid (.inl ⟨_, happlies, rfl, rfl⟩)
      · exact Sight.yields_pure hy.valid (.inr ⟨happlies, rfl⟩)
    obtain ⟨m, k, hfound, rfl, rfl⟩ | ⟨hnone, rfl⟩ := hr
    · have hany : (cs.any fun m => phases.any (o.applies args · m)) = true :=
        List.any_eq_true.2 ⟨m, List.mem_of_find?_eq_some hfound,
          (List.find?_eq_some_iff_append.1 hfound).1⟩
      exact Sight.yields_pure hx.valid ⟨by rw [hany]; rfl, nofun⟩
    · have hany : (cs.any fun m => phases.any (o.applies args · m)) = false :=
        List.any_eq_false.2 (List.find?_eq_none.1 hnone)
      exact Sight.yields_pure hx.valid ⟨by rw [hany]; rfl, nofun⟩
  next hall =>
    have hany : (cs.any fun m => phases.any (o.applies args · m)) = false :=
      Facts.applies_of_hidden (by have := List.length_filter_le o.visible cs; omega) hnone
    exact Sight.yields_pure hu.valid ⟨by rw [hany]; rfl, nofun⟩

/-- Overload resolution finds a problem or a most specific method. The method is called for a
visible candidate that is applicable in the earliest possible phase and at least as specific as all
others of that phase. An invocation is ambiguous only if there is no such candidate, or if there are
several abstract ones with different erasures. Other orders of the candidates lead to the same
problem, or to none as well. -/
theorem findMethod_chosen [DecidableEq τ] {cs : List MethodId} (hw : s.Valid w)
    (hcs : ∀ m ∈ cs, s.Has w m (o.profile m)) :
    ∃ k problem v, findMethod cs args place target w = .ok (k, problem) v ∧
      (problem = none → ∃ ph m, o.IsFirst args cs ph ∧ m ∈ o.fitting args cs ph ∧
        Calls args target o s v m k ∧
        ∀ m' ∈ o.fitting args cs ph, o.isMoreSpecific args ph m m' = true) ∧
      (problem = some .ambiguousMethod → ∃ ph, o.IsFirst args cs ph ∧
        ((∀ m ∈ o.fitting args cs ph, ∃ m' ∈ o.fitting args cs ph,
            o.isMoreSpecific args ph m m' = false) ∨
          ∃ m ∈ o.best args ph (o.fitting args cs ph),
            ∃ m' ∈ o.best args ph (o.fitting args cs ph), o.isAbstract m = true ∧
              o.isAbstract m' = true ∧ o.erasures m ≠ o.erasures m')) ∧
      ∀ ds w', cs.Perm ds → s.Valid w' → (∀ m ∈ ds, s.Has w' m (o.profile m)) →
        ∃ k' v', findMethod ds args place target w' = .ok (k', problem) v' := by
  obtain ⟨⟨k, problem⟩, v, hrun, -, hproblem, hchosen⟩ := h.yields_findMethod hw hcs
  refine ⟨k, problem, v, hrun, fun hnone => ?_, fun hambiguous => ?_, fun ds w' hperm hw' hds => ?_⟩
  · obtain ⟨ph, m, hfirst, hm, hcalls⟩ := hchosen hnone
    obtain ⟨hfits, hall⟩ := List.mem_filter.1 hm
    exact ⟨ph, m, hfirst, hfits, hcalls, List.all_eq_true.1 hall⟩
  · exact Facts.tie_of_verdict (hproblem.symm.trans hambiguous)
  · obtain ⟨⟨k', problem'⟩, v', hrun', -, hproblem', -⟩ := h.yields_findMethod hw' hds
    refine ⟨k', v', ?_⟩
    have hsame : problem' = problem :=
      hproblem'.trans ((Facts.verdict_perm hperm).symm.trans hproblem.symm)
    rw [hrun', hsame]

/-! ### Methods with numbers -/

end Outlook

/-- Whether a primitive type is a subtype of another one. No type is a subtype of all and all are
subtypes of it. -/
def primitiveSubtype : Option BasicType → Option BasicType → Bool
  | some a, some b => a == b || (a != .boolean && b != .boolean && a.widensTo b)
  | _, _ => true

theorem primitiveSubtype_self (x : Option BasicType) : primitiveSubtype x x = true := by
  cases x with
  | none => rfl
  | some a => rw [primitiveSubtype, beq_self_eq_true, Bool.true_or]

/-- A program with the methods `f(int)` and `f(long)`. -/
def twoMethods : World where
  methods := #[{}, { name := "f", traits := .public, params := [base .int] },
    { name := "f", traits := .public, params := [base .long] }]
  wellKnown := ({} : Std.HashMap Text TypeId).insert "java.lang.String" ⟨11⟩

def oneParam (b : BasicType) : Profile (Option BasicType) where
  traits := .public
  params := [some b]
  isGeneric := false
  spreads := nofun

/-- The answers about an invocation `f(1)`. -/
def numbers : Facts (Option BasicType) where
  profile m := oneParam (if m.index = 1 then .int else .long)
  instantiated m := oneParam (if m.index = 1 then .int else .long)
  visible _ := true
  fits _ x _ := primitiveSubtype (some .int) x
  subtype := primitiveSubtype
  element _ := none
  erased := id

def primitiveSight : Sight (Option BasicType) where
  Valid w := w = twoMethods
  Denotes _ t x := x = none ∧ t = .none ∨ ∃ b : BasicType, b.isPrimitive ∧ x = some b ∧ t = base b
  Has _ m p := (m = ⟨1⟩ ∨ m = ⟨2⟩) ∧ p = numbers.profile m

theorem settled_twoMethods : twoMethods.Settled where
  kept _ _ := Std.HashMap.getElem?_empty
  placed _ hb := shape_firstTypes hb
  strings := ⟨⟨11⟩, Std.HashMap.getElem?_insert_self, fun b _ => by cases b <;> decide⟩

theorem absent_twoMethods : (twoMethods.types.getD TypeId.none.index {}).shape = .absent := by
  change (firstTypes.getD TypeId.none.index {}).shape = _
  rw [firstTypes, List.map_toArray]
  rfl

section

variable {w : World} {t u : TypeId} {x y : Option BasicType}

theorem unique_denoted (hx : primitiveSight.Denotes w t x) (hy : primitiveSight.Denotes w t y) :
    x = y := by
  obtain ⟨rfl, rfl⟩ | ⟨a, ha, rfl, rfl⟩ := hx <;>
    obtain ⟨rfl, hnone⟩ | ⟨b, hb, rfl, hbase⟩ := hy
  · rfl
  · exact absurd hbase.symm (BasicType.base_ne_none hb)
  · exact absurd hnone (BasicType.base_ne_none ha)
  · rw [BasicType.base_inj ha hb hbase]

theorem number_denoted (ht : primitiveSight.Denotes w t x) (hu : primitiveSight.Denotes w u x) :
    t = u := by
  obtain ⟨rfl, rfl⟩ | ⟨a, ha, rfl, rfl⟩ := ht <;> obtain ⟨hx, rfl⟩ | ⟨b, hb, hx, rfl⟩ := hu
  · rfl
  · cases hx
  · cases hx
  · cases hx
    rfl

theorem row_denoted (ht : primitiveSight.Denotes w t x) :
    (twoMethods.types.getD t.index {}).shape = x.elim .absent .base := by
  obtain ⟨rfl, rfl⟩ | ⟨b, hb, rfl, rfl⟩ := ht
  · exact absent_twoMethods
  · exact settled_twoMethods.placed b hb

theorem resolve_denoted [Answers] (ht : primitiveSight.Denotes w t x) :
    resolve t twoMethods = .ok t twoMethods := by
  refine resolve_ok Std.HashMap.getElem?_empty fun parts h => ?_
  rw [row_denoted ht] at h
  cases x <;> cases h

theorem shape_denoted [Answers] (ht : primitiveSight.Denotes w t x) :
    shape t twoMethods = .ok (x.elim .absent .base) twoMethods := by
  unfold shape
  rw [bind_run (resolve_denoted ht), ← row_denoted ht]
  rfl

theorem view_denoted [Answers] (ht : primitiveSight.Denotes w t x) :
    view t twoMethods = .ok (t, x.elim .absent .base) twoMethods := by
  unfold view
  rw [bind_run (resolve_denoted ht), ← row_denoted ht]
  rfl

variable {n : Nat}

theorem isSubtype_denoted (ht : primitiveSight.Denotes twoMethods t x)
    (hu : primitiveSight.Denotes twoMethods u y) :
    answer (n + 1) (.subtype t u) twoMethods = .ok (primitiveSubtype x y) twoMethods := by
  let _ : Answers := ⟨answer n⟩
  change subtypeRule t u twoMethods = _
  unfold subtypeRule
  rw [bind_run (resolve_denoted ht), bind_run (resolve_denoted hu)]
  dsimp only
  split
  next heq =>
    obtain rfl := eq_of_beq heq
    rw [unique_denoted ht hu, primitiveSubtype_self]
    rfl
  next hne =>
    rw [bind_run (shape_denoted ht), bind_run (shape_denoted hu)]
    obtain ⟨rfl, rfl⟩ | ⟨a, ha, rfl, rfl⟩ := ht
    · rfl
    obtain ⟨rfl, rfl⟩ | ⟨b, hb, rfl, rfl⟩ := hu
    · rfl
    have hvoid : (a != .void && b != .void) = true := by
      rw [bne_iff_ne.2 (BasicType.ne_void ha), bne_iff_ne.2 (BasicType.ne_void hb)]
      rfl
    have hab : (a == b) = false := by
      rw [beq_eq_false_iff_ne]
      rintro rfl
      exact hne (beq_self_eq_true _)
    change EStateM.Result.ok (a != .void && b != .void && a != .boolean && b != .boolean &&
      a.widensTo b) twoMethods = _
    rw [hvoid, primitiveSubtype, hab]
    rfl

theorem isAssignable_int {b : BasicType} (hb : b.isPrimitive) :
    @isAssignable ⟨answer (n + 1)⟩ (base .int) (base b) none twoMethods =
      .ok (primitiveSubtype (some .int) (some b)) twoMethods := by
  let _ : Answers := ⟨answer (n + 1)⟩
  have hsub : isSubtype (base .int) (base b) twoMethods =
      .ok (primitiveSubtype (some .int) (some b)) twoMethods :=
    isSubtype_denoted (.inr ⟨.int, rfl, rfl, rfl⟩) (.inr ⟨b, hb, rfl, rfl⟩)
  unfold isAssignable
  rw [BasicType.base_isNone hb]
  change (basicType (base .int) >>= fun s => basicType (base b) >>= fun t => _) twoMethods = _
  rw [bind_run (basicType_base settled_twoMethods rfl),
    bind_run (basicType_base settled_twoMethods hb)]
  dsimp only
  rw [if_neg (by simp [BasicType.ne_void hb]), if_pos (by simp [BasicType.ne_undefined hb]),
    bind_run hsub]
  cases primitiveSubtype (some .int) (some b) <;> rfl

theorem argFits_int (ph : Phase) (ht : primitiveSight.Denotes twoMethods t x) :
    @argFits ⟨answer (n + 1)⟩ (.value (base .int) none) t ph twoMethods =
      .ok (primitiveSubtype (some .int) x) twoMethods := by
  let _ : Answers := ⟨answer (n + 1)⟩
  have hsub : isSubtype (base .int) t twoMethods =
      .ok (primitiveSubtype (some .int) x) twoMethods :=
    isSubtype_denoted (.inr ⟨.int, rfl, rfl, rfl⟩) ht
  unfold argFits
  obtain ⟨rfl, rfl⟩ | ⟨b, hb, rfl, rfl⟩ := ht
  · rfl
  have hassign : isCompatible (base .int) (base b) twoMethods = _ := isAssignable_int hb
  rw [BasicType.base_isNone hb]
  cases ph with
  | strict =>
    change (basicType (base .int) >>= fun s => basicType (base b) >>= fun t => _) twoMethods = _
    rw [bind_run (basicType_base settled_twoMethods rfl),
      bind_run (basicType_base settled_twoMethods hb)]
    dsimp only
    rw [if_neg (by simp [BasicType.ne_undefined hb])]
    refine (bind_run (m := isSubtype _ _) hsub).trans ?_
    cases hr : primitiveSubtype (some .int) (some b) with
    | true => rfl
    | false =>
      rw [hr] at hassign
      exact bind_run (m := isAssignable _ _ _) hassign
  | loose => exact hassign
  | varargs => exact hassign

theorem outlook_numbers : @Outlook ⟨answer (n + 1)⟩ _ numbers [.value (base .int) none] .none .none
    primitiveSight := by
  let _ : Answers := ⟨answer (n + 1)⟩
  have hint : primitiveSight.Denotes twoMethods (base .int) (some .int) :=
    .inr ⟨.int, rfl, rfl, rfl⟩
  refine {
    traits := ?traits, generic := ?generic, params := ?params, unique := fun _ => unique_denoted, visible := ?visible,
    infers := fun _ _ hg => (Bool.false_ne_true hg).elim, copies := fun _ => ⟨rfl, rfl⟩,
    plain := fun _ _ => rfl, fits := ?fits, subtype := ?subtype, subtype_refl := primitiveSubtype_self,
    element := ?element, erasure := ?erasure, erased := fun _ => number_denoted }
  case traits =>
    rintro w m p rfl ⟨rfl | rfl, rfl⟩ <;> rfl
  case generic =>
    rintro w m p rfl ⟨rfl | rfl, rfl⟩ <;> rfl
  case params =>
    rintro w m p rfl ⟨rfl | rfl, rfl⟩
    · exact .cons hint .nil
    · exact .cons (.inr ⟨.long, rfl, rfl, rfl⟩) .nil
  case visible =>
    rintro w m rfl hm
    have habsent : view .none twoMethods = .ok (TypeId.none, Shape.absent) twoMethods :=
      view_denoted (w := twoMethods) (.inl ⟨rfl, rfl⟩)
    have hdeclaration : declaration .none twoMethods = .ok .none twoMethods := by
      unfold declaration
      rw [bind_run habsent]
      rfl
    refine ⟨_, twoMethods, ?_, .refl rfl, rfl⟩
    obtain ⟨rfl | rfl, -⟩ := hm
    all_goals
      change isVisible .public .none .none twoMethods = _
      unfold isVisible
      rw [bind_run hdeclaration, bind_run habsent]
      dsimp only
      rw [bind_run hdeclaration, bind_run habsent]
      rfl
  case fits =>
    rintro w t x a ph rfl ha ht
    obtain rfl := List.mem_singleton.1 ha
    exact ⟨_, _, argFits_int ph ht, .refl rfl, rfl⟩
  case subtype =>
    rintro w t u x y rfl ht hu
    exact ⟨_, _, isSubtype_denoted ht hu, .refl rfl, rfl⟩
  case element =>
    rintro w t x rfl ht
    refine ⟨.none, _, ?_, .refl rfl, .inl ⟨rfl, rfl⟩⟩
    unfold elementType
    rw [bind_run (shape_denoted ht)]
    cases x <;> rfl
  case erasure =>
    rintro w t x rfl ht
    refine ⟨t, twoMethods, ?_, .refl rfl, ht⟩
    let _ : Answers := ⟨answer n⟩
    change erasureRule t twoMethods = _
    unfold erasureRule
    rw [bind_run (view_denoted ht)]
    obtain ⟨rfl, rfl⟩ | ⟨b, -, rfl, rfl⟩ := ht <;> rfl

end

/-- Of `f(int)` and `f(long)` the invocation `f(1)` calls the first, in any order. -/
theorem findMethod_chosen_int : ∃ v,
    findMethod [⟨2⟩, ⟨1⟩] [.value (base .int) none] .none .none twoMethods = .ok (⟨1⟩, none) v := by
  have hoverloads : ∀ m ∈ [(⟨2⟩ : MethodId), ⟨1⟩],
      primitiveSight.Has twoMethods m (numbers.profile m) := by
    intro m hm
    obtain rfl | hm := List.mem_cons.1 hm
    · exact ⟨.inr rfl, rfl⟩
    · exact ⟨.inl (List.mem_singleton.1 hm), rfl⟩
  have houtlook : Outlook numbers [.value (base .int) none] .none .none primitiveSight :=
    outlook_numbers (n := 999999)
  obtain ⟨k, problem, v, hrun, hchosen, -, -⟩ := houtlook.findMethod_chosen rfl hoverloads
  obtain ⟨r, u, hrun', -, hproblem, -⟩ := houtlook.yields_findMethod rfl hoverloads
  cases hrun.symm.trans hrun'
  have hnone : problem = none := hproblem.trans (by decide)
  obtain ⟨ph, m, -, hm, ⟨⟨hk, hsame⟩, -⟩, hbest⟩ := hchosen hnone
  -- The method with the parameter `long` is not as specific as the other one.
  have hm : m = ⟨1⟩ := by
    obtain rfl | hm := List.mem_cons.1 (List.mem_of_mem_filter (List.mem_of_mem_filter hm))
    · cases ph with
      | strict => exact absurd (hbest ⟨1⟩ (by decide)) (by decide)
      | loose => exact absurd (hbest ⟨1⟩ (by decide)) (by decide)
      | varargs => exact absurd hm (by decide)
    · exact List.mem_singleton.1 hm
  obtain rfl | rfl := hk
  · exact ⟨v, hnone ▸ hrun⟩
  · exact absurd (congrArg Profile.params hsame) (by subst hm; decide)

end Javelin.Lookup
