import Javelin.Types.Substitution
import Javelin.Proofs.Types.RereadTypes
import Javelin.Proofs.Types.Terms

/-!
# Substitution is structural

A substitution rebuilds a type from its components, and each operation that makes a composite type
gives it the number that it has already. Both have to hold at every level: the type keeps its number
if no component changes, and has the term with the variables replaced if one does.

1. `World.Handles`, what a substitution makes of a type in every world that extends the one where
   the type was looked at: the types before a component are rebuilt first, and make others on the
   way.
2. One lemma for each kind of type, and from them every type (`Denotes.handles`).
3. `World.Binds`, what a type and those around it put in place of variables.
-/

namespace Javelin

open Run

namespace World

open Term

variable {w w' v : World} {s : Substitution} {As : List Term} {n : Nat} {t : TypeId} {T : Term}

/-- What a substitution whose arguments have the given terms puts in place of a variable. -/
def replacement (w : World) (s : Substitution) (As : List Term) (x : TypeId) : Option Term :=
  ((s.vars.map w.follow).zip As).lookup x

/-- The arguments of a substitution have the given terms. -/
def Supplied (w : World) (s : Substitution) (As : List Term) : Prop :=
  s.args.length = As.length ∧ ∀ p ∈ s.args.zip As, w.Means p.1 p.2

/-- What comes of a type with the given term in a world with more types. -/
structure Becomes (w w' v : World) (s : Substitution) (As : List Term) (t r : TypeId) (T : Term) :
    Prop where
  extension : w'.Extends v
  means : v.Means r (T.subst (w.replacement s As))
  kept : T.Avoids (w.replacement s As) → r = w.follow t ∧ v = w'
  live : ((∀ x, T ≠ .var x) ∨ ∀ a ∈ s.args, w.IsLive a) → v.IsLive r

/-- Whatever types were made, the substitution replaces the variables of the type. -/
def Handles (w : World) (s : Substitution) (As : List Term) (n : Nat) (t : TypeId) (T : Term) :
    Prop :=
  ∀ w', w.Extends w' → ∃ r v, Lookup.substituteIn s n t w' = .ok r v ∧ w.Becomes w' v s As t r T

attribute [local simp] Lookup.substituteIn

theorem argFor_run (x : TypeId) (us as : List TypeId) (w : World) :
    Lookup.argFor x us as w = .ok (((us.map w.follow).zip as).lookup x) w := by
  induction us generalizing as with
  | nil => cases as <;> rfl
  | cons u us ih =>
    cases as with
    | nil => rfl
    | cons a as =>
      rw [Lookup.argFor, bind_run (Lookup.follow_run u w), List.map_cons, List.zip_cons_cons,
        List.lookup_cons]
      by_cases hx : w.follow u = x
      · subst hx
        simp
        rfl
      · rw [beq_false_of_ne hx, beq_false_of_ne (Ne.symm hx)]
        exact ih as

theorem lookup_zip {α β : Type} (x : TypeId) (ks : List TypeId) {as : List α} {bs : List β}
    (hlength : as.length = bs.length) :
    ((ks.zip as).lookup x = none ∧ (ks.zip bs).lookup x = none) ∨
    ∃ p ∈ as.zip bs, (ks.zip as).lookup x = some p.1 ∧ (ks.zip bs).lookup x = some p.2 := by
  induction ks generalizing as bs with
  | nil => exact .inl ⟨rfl, rfl⟩
  | cons k ks ih =>
    cases as with
    | nil =>
      cases bs with
      | nil => exact .inl ⟨rfl, rfl⟩
      | cons => cases hlength
    | cons a as =>
      cases bs with
      | nil => cases hlength
      | cons b bs =>
        simp only [List.zip_cons_cons, List.lookup_cons]
        split
        · exact .inr ⟨(a, b), List.mem_cons_self .., rfl, rfl⟩
        · refine (ih (Nat.succ.inj hlength)).imp_right ?_
          rintro ⟨p, hp, hlookup⟩
          exact ⟨p, List.mem_cons_of_mem _ hp, hlookup⟩

theorem handles_absent (hw : w.Canonical) : w.Handles s As (n + 1) .none .absent := by
  intro w' hw'
  refine ⟨.none, w', ?_, ⟨.refl hw'.canonical, ⟨1, .absent⟩, fun _ => ⟨?_, rfl⟩, fun _ => ?_⟩⟩
  · have hstop : (s.isEmpty || TypeId.none.isNone) = true := (Bool.or_eq_true ..).mpr (.inr rfl)
    rw [Lookup.substituteIn, if_pos hstop]
    rfl
  · rw [follow_live hw.usable_none.1]
  · exact hw'.canonical.usable_none.1

/-- In a world with more types the type is what it was. -/
theorem same_shape (hw : w.Canonical) (hs : s.isEmpty = false) (hw' : w.Extends w') {S : Shape}
    (h : (w.row (w.follow t)).shape = S) (habsent : S.isAbsent = false) :
    ¬ (s.isEmpty || t.isNone) = true ∧ w'.follow t = w.follow t ∧
      (w'.row (w.follow t)).shape = S := by
  have hsome : t.isNone = false := by
    refine beq_false_of_ne fun hindex => ?_
    have hnone : t = .none := TypeId.eq_of_index hindex
    rw [hnone, follow_live hw.usable_none.1, hw.absent] at h
    rw [← h] at habsent
    cases habsent
  refine ⟨by rw [hs, hsome]; exact Bool.false_ne_true, hw'.follow t, ?_⟩
  rw [hw'.shape (lt_size_of_shape (h ▸ habsent)), h]

theorem handles_var (hw : w.Canonical) (hs : s.isEmpty = false) (hargs : w.Supplied s As)
    {x : Variable} (h : (w.row (w.follow t)).shape = .variable x) :
    w.Handles s As (n + 1) t (.var (w.follow t)) := by
  intro w' hw'
  obtain ⟨hgo, hfollow, hshape⟩ := same_shape hw hs hw' h rfl
  have hvars : s.vars.map w'.follow = s.vars.map w.follow :=
    List.map_congr_left fun x _ => hw'.follow x
  have hrun : Lookup.substituteIn s (n + 1) t w' =
      .ok ((((s.vars.map w.follow).zip s.args).lookup (w.follow t)).getD (w.follow t)) w' := by
    rw [Lookup.substituteIn, if_neg hgo, bind_run (Lookup.follow_run t w'), hfollow,
      bind_run (Lookup.entry_run _ w'), hshape]
    simp only
    rw [bind_run (argFor_run _ s.vars s.args w'), hvars]
    rfl
  refine ⟨_, w', hrun, ?_⟩
  have hself : w.Means t (.var (w.follow t)) := ⟨1, .var h⟩
  obtain ⟨hnone, hterm⟩ | ⟨p, hp, hsome, hterm⟩ := lookup_zip (w.follow t)
    (s.vars.map w.follow) hargs.1
  · rw [hnone]
    refine ⟨.refl hw'.canonical, ?_, fun _ => ⟨rfl, rfl⟩, fun _ => hw'.isLive.mpr (hw.live_follow t)⟩
    have hkept : (Term.var (w.follow t)).subst (w.replacement s As) = .var (w.follow t) := by
      rw [Term.subst, replacement, hterm, Option.getD_none]
    rw [hkept]
    exact (hself.follow hw).grow hw'
  · rw [hsome]
    refine ⟨.refl hw'.canonical, ?_, fun h => ?_, fun h => ?_⟩
    · rw [Term.subst, replacement, hterm, Option.getD_some]
      exact (hargs.2 p hp).grow hw'
    · cases h with
      | var h =>
        rw [replacement, hterm] at h
        cases h
    · obtain h | h := h
      · exact absurd rfl (h _)
      · exact hw'.isLive.mpr (h _ (List.of_mem_zip hp).1)

/-- A type that stays as it is. -/
theorem Becomes.unchanged (hw : w.Canonical) (hT : w.Means t T) (hw' : w.Extends w')
    (hv : w'.Extends v) (hsubst : T.subst (w.replacement s As) = T)
    (hkept : T.Avoids (w.replacement s As) → v = w') :
    w.Becomes w' v s As t (w.follow t) T where
  extension := hv
  means := by
    rw [hsubst]
    exact (hT.follow hw).grow (hw'.trans hv)
  kept h := ⟨rfl, hkept h⟩
  live _ := (hw'.trans hv).isLive.mpr (hw.live_follow t)

/-- A type that is made anew from components of which one changed. -/
theorem Becomes.rebuilt {r : TypeId} (hv : w'.Extends v) (hlive : v.IsLive r)
    (hmeans : v.Means r (T.subst (w.replacement s As)))
    (hchanged : ¬ T.Avoids (w.replacement s As)) : w.Becomes w' v s As t r T where
  extension := hv
  means := hmeans
  kept h := absurd h hchanged
  live _ := hlive

/-- Types without components that can change. -/
theorem handles_plain (hw : w.Canonical) (hs : s.isEmpty = false) {S : Shape}
    (h : (w.row (w.follow t)).shape = S) (hS : S.isAtom = true ∨ S.isRaw = true)
    (hT : w.Means t T) (hsubst : T.subst (w.replacement s As) = T) :
    w.Handles s As (n + 1) t T := by
  intro w' hw'
  have habsent : S.isAbsent = false := by
    obtain hS | hS := hS
    · exact Shape.isAbsent_of_isAtom hS
    · cases S with
      | composite => rfl
      | _ => cases hS
  obtain ⟨hgo, hfollow, hshape⟩ := same_shape hw hs hw' h habsent
  refine ⟨w.follow t, w', ?_, .unchanged hw hT hw' (.refl hw'.canonical) hsubst fun _ => rfl⟩
  rw [Lookup.substituteIn, if_neg hgo, bind_run (Lookup.follow_run t w'), hfollow,
    bind_run (Lookup.entry_run _ w'), hshape]
  obtain hS | hS := hS
  · cases S <;> cases hS <;> rfl
  · cases S with
    | composite c =>
      cases c with
      | raw => rfl
      | _ => cases hS
    | _ => cases hS

theorem handles_array (hw : w.Canonical) (hs : s.isEmpty = false) {e : TypeId} {k : Nat} {E : Term}
    (h : (w.row (w.follow t)).shape = .composite (.array e k)) (hdims : k ≠ 0)
    (helem : E.isElem = true) (hT : w.Means t (.array E k)) (he : w.Means e E)
    (ih : w.Handles s As n e E) :
    w.Handles s As (n + 1) t (.array E k) := by
  intro w' hw'
  obtain ⟨hgo, hfollow, hshape⟩ := same_shape hw hs hw' h rfl
  obtain ⟨e', v, hrun, hr⟩ := ih w' hw'
  have hv := hw'.trans hr.extension
  have hsame : v.follow e = e :=
    (hv.follow e).trans (hw.follow_component h (List.mem_cons_self ..))
  have hbody : Lookup.substituteIn s (n + 1) t w' =
      (if e' == e then pure (w.follow t) else Lookup.array e' k : Lookup TypeId) v := by
    rw [Lookup.substituteIn, if_neg hgo, bind_run (Lookup.follow_run t w'), hfollow,
      bind_run (Lookup.entry_run _ w'), hshape]
    simp only
    rw [bind_run hrun, bind_run (Lookup.follow_run e v), hsame]
  by_cases heq : e' = e
  · subst heq
    refine ⟨w.follow t, v, by rw [hbody, if_pos (beq_self_eq_true _)]; rfl,
      .unchanged hw hT hw' hr.extension ?_ fun havoids => ?_⟩
    · rw [Term.subst, hr.means.unique (he.grow hv) hv.canonical rfl, arrayOf_eq helem]
    · cases havoids with
      | array havoids => exact (hr.kept havoids).2
  · obtain ⟨r, v', hmade, hv', hlive, hmeans⟩ := means_array hv.canonical hr.means hdims
    refine ⟨r, v', by rw [hbody, if_neg (by simpa using heq), hmade],
      .rebuilt (hr.extension.trans hv') hlive hmeans fun havoids => heq ?_⟩
    cases havoids with
    | array havoids => rw [(hr.kept havoids).1, hw.follow_component h (List.mem_cons_self ..)]

theorem handles_wildcard (hw : w.Canonical) (hs : s.isEmpty = false) {b : TypeId}
    {kind : WildcardKind} {B : Term}
    (h : (w.row (w.follow t)).shape = .composite (.wildcard b kind))
    (hkind : kind = .unbounded → B = .absent) (hT : w.Means t (.wildcard B kind))
    (hb : w.Means b B) (ih : w.Handles s As n b B) :
    w.Handles s As (n + 1) t (.wildcard B kind) := by
  intro w' hw'
  obtain ⟨hgo, hfollow, hshape⟩ := same_shape hw hs hw' h rfl
  have habsent : w.Means .none .absent := ⟨1, .absent⟩
  by_cases hnone : b.isNone = true
  · obtain rfl : b = .none := TypeId.eq_of_index (beq_iff_eq.mp hnone)
    have hB := hb.unique habsent hw rfl
    subst hB
    refine ⟨w.follow t, w', ?_, .unchanged hw hT hw' (.refl hw'.canonical) rfl fun _ => rfl⟩
    rw [Lookup.substituteIn, if_neg hgo, bind_run (Lookup.follow_run t w'), hfollow,
      bind_run (Lookup.entry_run _ w'), hshape]
    rfl
  · obtain ⟨b', v, hrun, hr⟩ := ih w' hw'
    have hv := hw'.trans hr.extension
    have hsame : v.follow b = b :=
      (hv.follow b).trans (hw.follow_component h (List.mem_cons_self ..))
    have hbody : Lookup.substituteIn s (n + 1) t w' =
        (if b' == b then pure (w.follow t) else Lookup.wildcard b' kind : Lookup TypeId) v := by
      rw [Lookup.substituteIn, if_neg hgo, bind_run (Lookup.follow_run t w'), hfollow,
        bind_run (Lookup.entry_run _ w'), hshape]
      simp only
      rw [if_neg hnone, bind_run hrun, bind_run (Lookup.follow_run b v), hsame]
    by_cases heq : b' = b
    · subst heq
      refine ⟨w.follow t, v, by rw [hbody, if_pos (beq_self_eq_true _)]; rfl,
        .unchanged hw hT hw' hr.extension ?_ fun havoids => ?_⟩
      · rw [Term.subst, hr.means.unique (hb.grow hv) hv.canonical rfl]
      · cases havoids with
        | wildcard havoids => exact (hr.kept havoids).2
    · have hbounded : kind ≠ .unbounded := by
        intro hunbounded
        obtain ⟨_, hb⟩ := hkind hunbounded ▸ hb
        cases hb
        exact hnone rfl
      obtain ⟨r, v', hmade, hv', hlive, hmeans⟩ := means_wildcard hv.canonical hr.means hbounded
      refine ⟨r, v', by rw [hbody, if_neg (by simpa using heq), hmade],
        .rebuilt (hr.extension.trans hv') hlive hmeans fun havoids => heq ?_⟩
      cases havoids with
      | wildcard havoids => rw [(hr.kept havoids).1, hw.follow_component h (List.mem_cons_self ..)]

variable {ts : List TypeId} {Ts : List Term}

/-- Each of some types is handled. -/
theorem mapM_substituteIn_run (hlength : ts.length = Ts.length)
    (hlive : ∀ x ∈ ts, w.follow x = x)
    (ih : ∀ p ∈ ts.zip Ts, w.Handles s As n p.1 p.2) (hw' : w.Extends w') :
    ∃ rs v, ts.mapM (Lookup.substituteIn s n) w' = .ok rs v ∧ w'.Extends v ∧
      rs.length = ts.length ∧
      (∀ p ∈ rs.zip (Term.substAll (w.replacement s As) Ts), v.Means p.1 p.2) ∧
      ((∀ T ∈ Ts, T.Avoids (w.replacement s As)) → rs = ts ∧ v = w') := by
  induction ts generalizing Ts w' with
  | nil => exact ⟨[], w', rfl, .refl hw'.canonical, rfl, nofun, fun _ => ⟨rfl, rfl⟩⟩
  | cons t ts rest =>
    obtain ⟨T, Ts, rfl⟩ := List.exists_cons_of_length_eq_add_one hlength.symm
    obtain ⟨hfirst, hlive⟩ := List.forall_mem_cons.mp hlive
    obtain ⟨hhead, htail⟩ := List.forall_mem_cons.mp ih
    obtain ⟨r, v, hrun, hr⟩ := hhead w' hw'
    obtain ⟨rs, u, hruns, hu, hrs, hmeans, hkept⟩ :=
      rest (Nat.succ.inj hlength) hlive htail (hw'.trans hr.extension)
    refine ⟨r :: rs, u, ?_, hr.extension.trans hu, congrArg Nat.succ hrs, ?_, fun havoids => ?_⟩
    · rw [List.mapM_cons, bind_run hrun, bind_run hruns]
      rfl
    · rw [Term.substAll, List.zip_cons_cons]
      exact List.forall_mem_cons.mpr ⟨hr.means.grow hu, hmeans⟩
    · obtain ⟨hT, hTs⟩ := List.forall_mem_cons.mp havoids
      obtain ⟨rfl, rfl⟩ := hr.kept hT
      obtain ⟨rfl, rfl⟩ := hkept hTs
      exact ⟨by rw [hfirst], rfl⟩

/-- The types after a change of each, and whether any changed. -/
theorem changeAll_run (hlength : ts.length = Ts.length) (hlive : ∀ x ∈ ts, w.follow x = x)
    (ih : ∀ p ∈ ts.zip Ts, w.Handles s As n p.1 p.2) (hw' : w.Extends w') :
    ∃ rs v, Lookup.changeAll (Lookup.substituteIn s n) ts w' = .ok (rs, rs != ts) v ∧
      w'.Extends v ∧ rs.length = ts.length ∧
      (∀ p ∈ rs.zip (Term.substAll (w.replacement s As) Ts), v.Means p.1 p.2) ∧
      ((∀ T ∈ Ts, T.Avoids (w.replacement s As)) → rs = ts ∧ v = w') := by
  obtain ⟨rs, v, hrun, hv, hrs⟩ := mapM_substituteIn_run hlength hlive ih hw'
  refine ⟨rs, v, ?_, hv, hrs⟩
  have hfollow : ts.map v.follow = ts := by
    refine (List.map_congr_left fun x hx => ?_).trans (List.map_id ts)
    rw [(hw'.trans hv).follow, hlive x hx]
    rfl
  unfold Lookup.changeAll
  rw [bind_run hrun, bind_run (Lookup.mapM_follow_run ts v), hfollow]
  rfl

/-- Types that are what they were have the terms that they had. -/
theorem substAll_eq (hv : v.Canonical) (hlength : ts.length = Ts.length)
    (hTs : ∀ p ∈ ts.zip Ts, v.Means p.1 p.2)
    (h : ∀ p ∈ ts.zip (Term.substAll (w.replacement s As) Ts), v.Means p.1 p.2) :
    Term.substAll (w.replacement s As) Ts = Ts := by
  have hsubst : ts.length = (Term.substAll (w.replacement s As) Ts).length := by
    rw [Term.length_substAll, hlength]
  exact zip_unique hsubst hlength fun p hp T hT => (h p hp).unique (hTs (p.1, T) hT) hv rfl

theorem handles_intersection (hw : w.Canonical) (hs : s.isEmpty = false)
    (h : (w.row (w.follow t)).shape = .composite (.intersection ts)) (hmany : ts.length ≠ 1)
    (hlength : ts.length = Ts.length) (hT : w.Means t (.intersection Ts))
    (hTs : ∀ p ∈ ts.zip Ts, w.Means p.1 p.2)
    (ih : ∀ p ∈ ts.zip Ts, w.Handles s As n p.1 p.2) :
    w.Handles s As (n + 1) t (.intersection Ts) := by
  intro w' hw'
  obtain ⟨hgo, hfollow, hshape⟩ := same_shape hw hs hw' h rfl
  obtain ⟨rs, v, hrun, hext, hrs, hmeans, hkept⟩ :=
    changeAll_run hlength (fun x hx => hw.follow_component h hx) ih hw'
  have hv := hw'.trans hext
  have hbody : Lookup.substituteIn s (n + 1) t w' =
      (if rs != ts then Lookup.intersection rs else pure (w.follow t) : Lookup TypeId) v := by
    rw [Lookup.substituteIn, if_neg hgo, bind_run (Lookup.follow_run t w'), hfollow,
      bind_run (Lookup.entry_run _ w'), hshape]
    simp only
    rw [bind_run hrun]
  have hmeet : Term.subst (w.replacement s As) (.intersection Ts) =
      .intersection (Term.substAll (w.replacement s As) Ts) := by
    rw [Term.subst, meet_eq]
    rwa [Term.length_substAll, ← hlength]
  by_cases heq : rs = ts
  · subst heq
    refine ⟨w.follow t, v, by rw [hbody, if_neg (by simp)]; rfl,
      .unchanged hw hT hw' hext ?_ fun havoids => ?_⟩
    · rw [hmeet, substAll_eq hv.canonical hlength (fun p hp => (hTs p hp).grow hv) hmeans]
    · cases havoids with
      | intersection havoids => exact (hkept havoids).2
  · obtain ⟨r, v', hmade, hv', hlive, hnew⟩ := means_intersection hv.canonical
      (hrs.symm ▸ hmany) (by rw [Term.length_substAll, hrs, hlength]) hmeans
    refine ⟨r, v', by rw [hbody, if_pos (by simpa using heq), hmade],
      .rebuilt (hext.trans hv') hlive (hmeet ▸ hnew) fun havoids => heq ?_⟩
    cases havoids with
    | intersection havoids => exact (hkept havoids).1

theorem handles_parameterized (hw : w.Canonical) (hs : s.isEmpty = false) {g outer : TypeId}
    {isDegraded : Bool} {O : Term}
    (h : (w.row (w.follow t)).shape = .composite (.parameterized g ts outer isDegraded))
    (hlength : ts.length = Ts.length) (hT : w.Means t (.parameterized g Ts O isDegraded))
    (hTs : ∀ p ∈ ts.zip Ts, w.Means p.1 p.2) (hO : w.Means outer O)
    (ih : ∀ p ∈ ts.zip Ts, w.Handles s As n p.1 p.2) (ihouter : w.Handles s As n outer O) :
    w.Handles s As (n + 1) t (.parameterized g Ts O isDegraded) := by
  intro w' hw'
  obtain ⟨hgo, hfollow, hshape⟩ := same_shape hw hs hw' h rfl
  have hpart {x : TypeId} (hx : x ∈ g :: outer :: ts) : w.Usable x :=
    hw.component ⟨hw.live_follow t, h⟩ hx
  obtain ⟨rs, v, hrun, hext, hrs, hmeans, hkept⟩ := changeAll_run hlength
    (fun x hx => follow_live (hpart (List.mem_cons_of_mem _ (List.mem_cons_of_mem _ hx))).1) ih hw'
  have hv := hw'.trans hext
  -- Only a type that is there is handled.
  have houter : ∃ o u, Lookup.substituteIn s (n + 1) t w' =
      (if (rs != ts || o != outer) then Lookup.parameterizeAs g rs o isDegraded
        else pure (w.follow t) : Lookup TypeId) u ∧ v.Extends u ∧
      u.Means o (O.subst (w.replacement s As)) ∧
      (O.Avoids (w.replacement s As) → o = outer ∧ u = v) := by
    rw [Lookup.substituteIn, if_neg hgo, bind_run (Lookup.follow_run t w'), hfollow,
      bind_run (Lookup.entry_run _ w'), hshape]
    simp only
    rw [bind_run hrun]
    simp only
    by_cases hsome : outer.isSome = true
    · obtain ⟨o, u, hrun', hr⟩ := ihouter v hv
      have hlive : w.follow outer = outer := follow_live (hpart (by simp)).1
      refine ⟨o, u, ?_, hr.extension, hr.means, fun havoids => hlive ▸ hr.kept havoids⟩
      have hsame : u.follow outer = outer := by rw [(hv.trans hr.extension).follow, hlive]
      rw [if_pos hsome, bind_run hrun', bind_run (Lookup.follow_run outer u), hsame]
      rfl
    · obtain rfl : outer = .none := TypeId.eq_of_index
        (show outer.index = 0 by simpa [TypeId.isSome] using hsome)
      obtain rfl := hO.unique ⟨1, .absent⟩ hw rfl
      refine ⟨.none, v, ?_, .refl hv.canonical, ⟨1, .absent⟩, fun _ => ⟨rfl, rfl⟩⟩
      rw [if_neg hsome]
      rfl
  obtain ⟨o, u, hbody, hext', hmeans', hkept'⟩ := houter
  have hu := hv.trans hext'
  have hcanonical := hu.canonical
  have hnew : ∀ p ∈ rs.zip (Term.substAll (w.replacement s As) Ts), u.Means p.1 p.2 :=
    fun p hp => (hmeans p hp).grow hext'
  by_cases heq : rs = ts ∧ o = outer
  · obtain ⟨rfl, rfl⟩ := heq
    refine ⟨w.follow t, u, by rw [hbody, if_neg (by simp)]; rfl,
      .unchanged hw hT hw' (hext.trans hext') ?_ fun havoids => ?_⟩
    · rw [Term.subst, substAll_eq hcanonical hlength (fun p hp => (hTs p hp).grow hu) hnew,
        hmeans'.unique (hO.grow hu) hcanonical rfl]
    · cases havoids with
      | parameterized hargs ho => rw [(hkept' ho).2, (hkept hargs).2]
  · obtain ⟨hg, hg'⟩ := hpart (List.mem_cons_self ..)
    obtain ⟨r, v', hmade, hv', hlive, hterm⟩ := means_parameterized hcanonical
      ⟨hu.isLive.mpr hg, Nat.lt_of_lt_of_le hg' hu.size⟩
      (by rw [Term.length_substAll, hrs, hlength]) hnew hmeans' isDegraded
    refine ⟨r, v', ?_, .rebuilt ((hext.trans hext').trans hv') hlive (by rwa [Term.subst])
      fun havoids => heq ?_⟩
    · rw [hbody, if_pos ?_, hmade]
      simpa [Classical.or_iff_not_imp_left] using heq
    · cases havoids with
      | parameterized hargs ho => exact ⟨(hkept hargs).1, (hkept' ho).1⟩

/-- Every type is handled, however it is nested. -/
theorem Denotes.handles (hw : w.Canonical) (hs : s.isEmpty = false) (hargs : w.Supplied s As)
    (h : w.Denotes n t T) : w.Handles s As n t T := by
  have hT : w.Means t T := ⟨n, h⟩
  induction h with
  | absent => exact handles_absent hw
  | var h => exact handles_var hw hs hargs h
  | atom h => exact handles_plain hw hs rfl (.inl h) hT rfl
  | raw h => exact handles_plain hw hs h (.inr rfl) hT rfl
  | array h hdims helem he ih =>
    exact handles_array hw hs h hdims helem hT ⟨_, he⟩ (ih ⟨_, he⟩)
  | parameterized h hlength hTs hO ih ihouter =>
    exact handles_parameterized hw hs h hlength hT (fun p hp => ⟨_, hTs p hp⟩) ⟨_, hO⟩
      (fun p hp => ih p hp ⟨_, hTs p hp⟩) (ihouter ⟨_, hO⟩)
  | wildcard h hkind hb ih =>
    exact handles_wildcard hw hs h hkind hT ⟨_, hb⟩ (ih ⟨_, hb⟩)
  | intersection h hmany hlength hTs ih =>
    exact handles_intersection hw hs h hmany hlength hT (fun p hp => ⟨_, hTs p hp⟩)
      fun p hp => ih p hp ⟨_, hTs p hp⟩

/-- The term of a type after a substitution, and when the number stays. -/
theorem substitute_run (hw : w.Canonical) (hargs : w.Supplied s As) (hT : w.Means t T) :
    ∃ r v, Lookup.substitute s t w = .ok r v ∧ w.Extends v ∧
      v.Means r (T.subst (w.replacement s As)) ∧
      (T.Avoids (w.replacement s As) → r = (if s.isEmpty then t else w.follow t) ∧ v = w) ∧
      (s.isEmpty = false → (∀ x, T ≠ .var x) ∨ (∀ a ∈ s.args, w.IsLive a) → v.IsLive r) := by
  have hstart : Lookup.substitute s t w = Lookup.substituteIn s (w.types.size + 1) t w := rfl
  rw [hstart]
  cases hs : s.isEmpty with
  | true =>
    have hσ (x : TypeId) : w.replacement s As x = none := by
      rw [replacement, List.isEmpty_iff.mp hs]
      rfl
    refine ⟨t, w, ?_, .refl hw, ?_, fun _ => ⟨rfl, rfl⟩, nofun⟩
    · rw [Lookup.substituteIn, if_pos (by rw [hs, Bool.true_or])]
      rfl
    · rwa [hT.choose_spec.subst_none hσ]
  | false =>
    obtain ⟨r, v, hrun, hr⟩ := (hT.bounded hw).handles hw hs hargs w (.refl hw)
    exact ⟨r, v, hrun, hr.extension, hr.means, hr.kept, fun _ => hr.live⟩

/-! ## The substitution of a type -/

/-- What a type and the types that enclose it put in place of variables, the innermost first. A raw
type puts erasures there, and has nothing around it. -/
inductive Binds (w : World) [Answers] : World → TypeId → List (TypeId × TypeId) → Prop
  | other {t : TypeId} (hwaiting : (w.row (w.follow t)).shape.isWaiting = false)
    (hparameterized : (w.row (w.follow t)).shape.isParameterized = false)
    (hraw : (w.row (w.follow t)).shape.isRaw = false) : Binds w w t []
  | raw {t g : TypeId} {erasures : List TypeId} {v : World}
    (h : (w.row (w.follow t)).shape = .composite (.raw g))
    (hg : (w.row (w.follow g)).shape.isWaiting = false)
    (herasures : (w.row (w.follow g)).shape.typeVars.mapM Lookup.erasure w = .ok erasures v)
    (hlength : (w.row (w.follow g)).shape.typeVars.length = erasures.length) :
    Binds w v t ((w.row (w.follow g)).shape.typeVars.zip erasures)
  | parameterized {t g outer : TypeId} {args : List TypeId} {isDegraded : Bool} {v : World}
    {ps : List (TypeId × TypeId)}
    (h : (w.row (w.follow t)).shape = .composite (.parameterized g args outer isDegraded))
    (hg : (w.row (w.follow g)).shape.isWaiting = false) (houter : Binds w v outer ps) :
    Binds w v t ((w.row (w.follow g)).shape.typeVars.zip args ++ ps)

theorem map_fst_zip_take {α β : Type} (as : List α) (bs : List β) :
    (as.zip bs).map Prod.fst = as.take (min as.length bs.length) := by
  rw [List.zip_eq_zip_take_min, List.map_fst_zip]
  simp

theorem map_snd_zip_take {α β : Type} (as : List α) (bs : List β) :
    (as.zip bs).map Prod.snd = bs.take (min as.length bs.length) := by
  rw [List.zip_eq_zip_take_min, List.map_snd_zip]
  simp

section

variable [Answers]

theorem shape_known (hw : w.Canonical) (h : (w.row (w.follow t)).shape.isWaiting = false) :
    Lookup.shape t w = .ok (w.row (w.follow t)).shape w := by
  unfold Lookup.shape
  rw [bind_run (resolve_known hw h)]
  rfl

theorem view_known (hw : w.Canonical) (h : (w.row (w.follow t)).shape.isWaiting = false) :
    Lookup.view t w = .ok (w.follow t, (w.row (w.follow t)).shape) w := by
  unfold Lookup.view
  rw [bind_run (resolve_known hw h)]
  rfl

/-- Each of the types that enclose one is another type, so there are no more of them than types. -/
theorem Binds.run (hw : w.Canonical) {ps : List (TypeId × TypeId)} (h : w.Binds v t ps)
    (hT : w.Means t T) {path : List TypeId} (hpath : w.Path T path)
    (hn : w.types.size ≤ n + path.length) (s : Substitution) :
    Lookup.substitutionIn s n t w =
      .ok ⟨s.vars ++ ps.map Prod.fst, s.args ++ ps.map Prod.snd⟩ v := by
  have hroom {A : Term} {x : TypeId} {k : Nat} {path : List TypeId} (h : w.Path A (x :: path))
      (hk : w.types.size ≤ k + path.length) :
      ∃ j, k = j + 1 ∧ w.types.size ≤ j + (x :: path).length := by
    have hlength := h.length_le
    rw [List.length_cons] at hlength ⊢
    exact ⟨k - 1, by omega, by omega⟩
  induction h generalizing n s path T with
  | @other t hwaiting hparameterized hraw =>
    rw [List.map_nil, List.map_nil, List.append_nil, List.append_nil]
    cases n with
    | zero => rfl
    | succ n =>
      rw [Lookup.substitutionIn, bind_run (view_known hw hwaiting)]
      cases hs : (w.row (w.follow t)).shape with
      | composite c =>
        rw [hs] at hparameterized hraw
        cases c with
        | parameterized => cases hparameterized
        | raw => cases hraw
        | _ => rfl
      | _ => rfl
  | @raw t g erasures v h hg herasures hlength =>
    obtain rfl := hT.unique ⟨1, .raw h⟩ hw rfl
    obtain ⟨_, hT⟩ := hT
    have hsize : sizeOf Term.absent < sizeOf (Term.raw g) := by
      obtain ⟨i⟩ := g
      rw [Term.absent.sizeOf_spec, Term.raw.sizeOf_spec, TypeId.mk.sizeOf_spec]
      omega
    obtain ⟨n, rfl, -⟩ := hroom (hpath.cons hw hT (lt_size_of_composite h) hsize) hn
    rw [Lookup.substitutionIn, bind_run (view_known hw (h ▸ rfl)), h]
    simp only
    rw [bind_run (shape_known hw hg), bind_run herasures,
      List.map_fst_zip (Nat.le_of_eq hlength), List.map_snd_zip (Nat.le_of_eq hlength.symm)]
    rfl
  | @parameterized t g outer args isDegraded v ps h hg houter ih =>
    obtain ⟨_, hT⟩ := hT
    obtain ⟨O, hO, hlt⟩ : ∃ O, w.Means outer O ∧ sizeOf O < sizeOf T := by
      cases hT with
      | parameterized h' _ _ hO =>
        cases h.symm.trans h'
        refine ⟨_, ⟨_, hO⟩, ?_⟩
        rw [Term.parameterized.sizeOf_spec]
        omega
      | absent =>
        rw [follow_live hw.usable_none.1, hw.absent] at h
        cases h
      | atom h' =>
        rw [h] at h'
        cases h'
      | _ h' => cases h.symm.trans h'
    have hnext := hpath.cons hw hT (lt_size_of_composite h) hlt
    obtain ⟨n, rfl, hn'⟩ := hroom hnext hn
    have hparts : Lookup.parts (w.follow t) w = .ok (args, outer, isDegraded) w := by
      unfold Lookup.parts
      rw [bind_run (Lookup.entry_run _ w), h]
      rfl
    rw [Lookup.substitutionIn, bind_run (view_known hw (h ▸ rfl)), h]
    simp only
    rw [bind_run (shape_known hw hg), bind_run hparts]
    simp only
    rw [ih hO hnext hn']
    simp only [List.map_append, List.append_assoc, map_fst_zip_take, map_snd_zip_take]

end

/-! ## Substitution -/

theorem Supplied.grow (h : w.Supplied s As) (hv : w.Extends v) : v.Supplied s As :=
  ⟨h.1, fun p hp => (h.2 p hp).grow hv⟩

theorem Extends.replacement (hv : w.Extends v) (s : Substitution) (As : List Term) :
    v.replacement s As = w.replacement s As := by
  have hvars : s.vars.map v.follow = s.vars.map w.follow :=
    List.map_congr_left fun x _ => hv.follow x
  funext x
  rw [World.replacement, World.replacement, hvars]

/-- Substitution is structural: the term of the result is that of the type with each variable
replaced by the term of its argument, and other types are what they were. If no variable is
replaced, the type stays as it is. If none is replaced in the arguments, a second substitution leads
to the same type; it gives the same number unless the type is a variable itself and the argument is
redirected. The substitution of a type has the variables and arguments of all types that enclose it.
-/
theorem substitution_structural (hw : w.Canonical) (hargs : w.Supplied s As) (hT : w.Means t T) :
    (∃ r v, Lookup.substitute s t w = .ok r v ∧ w.Extends v ∧
      v.Means r (T.subst (w.replacement s As)) ∧
      (T.Avoids (w.replacement s As) → r = (if s.isEmpty then t else w.follow t) ∧ v = w) ∧
      ((∀ A ∈ As, A.Avoids (w.replacement s As)) →
        Lookup.substitute s r v = .ok (if s.isEmpty then r else v.follow r) v ∧
        ((∀ x, T ≠ .var x) ∨ (∀ a ∈ s.args, w.IsLive a) → Lookup.substitute s r v = .ok r v))) ∧
    ∀ [Answers] (p : TypeId) (P : Term) (v : World) (ps : List (TypeId × TypeId)),
      w.Means p P → w.Binds v p ps →
      Lookup.substitutionOf p w = .ok ⟨ps.map Prod.fst, ps.map Prod.snd⟩ v := by
  refine ⟨?_, fun p P v ps hP hps => ?_⟩
  · obtain ⟨r, v, hrun, hv, hr, hkept, hlive⟩ := substitute_run hw hargs hT
    refine ⟨r, v, hrun, hv, hr, hkept, fun havoids => ?_⟩
    have hσ : ∀ x A, w.replacement s As x = some A → A.Avoids (w.replacement s As) := by
      intro x A hA
      obtain ⟨front, rest, hzip, -⟩ := List.lookup_eq_some_iff.mp hA
      exact havoids A (List.of_mem_zip (hzip ▸ List.mem_append_cons_self)).2
    obtain ⟨r', v', hrun', -, -, hkept', -⟩ :=
      substitute_run hv.canonical (hargs.grow hv) hr
    rw [hv.replacement] at hkept'
    obtain ⟨rfl, rfl⟩ := hkept' (avoids_subst hσ T)
    refine ⟨hrun', fun h => ?_⟩
    cases hs : s.isEmpty with
    | true => rwa [hs] at hrun'
    | false => rwa [hs, if_neg Bool.false_ne_true, follow_live (hlive hs h)] at hrun'
  · have hrun := hps.run hw hP ⟨List.nodup_nil, nofun⟩ (n := w.types.size) (Nat.le_refl _) {}
    rwa [List.nil_append, List.nil_append] at hrun

/-- For `Outer<T>.Inner<U>` and the substitution of `Outer<String[]>.Inner<String>`. -/
theorem substitution_structural_member : ∃ (w v : World) (s : Substitution) (As : List Term)
    (outer inner string t p r : TypeId), w.Canonical ∧ w.Supplied s As ∧
      (∃ T U, w.Means t (.parameterized inner [.var U]
        (.parameterized outer [.var T] .absent false) false)) ∧
      (∀ [Answers], Lookup.substitutionOf p w = .ok s w) ∧
      Lookup.substitute s t w = .ok r v ∧
      v.Means r (.parameterized inner [.atom string]
        (.parameterized outer [.array (.atom string) 1] .absent false) false) ∧
      Lookup.substitute s r v = .ok r v := by
  have empty (name : Text) : ({} : World).byBinaryName[name]? = none :=
    Std.HashMap.getElem?_empty
  have hstringOuter : ¬ (("java/lang/String" : Text) == "Outer") = true := by decide +kernel
  have hstringInner : ¬ (("java/lang/String" : Text) == "Outer$Inner") = true := by decide +kernel
  have houterInner : ¬ (("Outer" : Text) == "Outer$Inner") = true := by decide +kernel
  obtain ⟨string, w₁, -, r₁, hstring, n₁⟩ := start_tidy.recordType
    (d := { origin := .missing, name := "String", binaryName := "java/lang/String" }) (empty _)
  obtain ⟨T, w₂, -, r₂, hT, n₂⟩ := r₁.tidy.addVariable "T" 0 .none ⟨0⟩
  obtain ⟨U, w₃, -, r₃, hU, n₃⟩ := r₂.tidy.addVariable "U" 0 .none ⟨0⟩
  obtain ⟨outer, w₄, -, r₄, houter, n₄⟩ := r₃.tidy.recordType
    (d := { origin := .missing, name := "Outer", binaryName := "Outer", typeVars := [T] }) (by
      rw [n₃, n₂, n₁, Std.HashMap.getElem?_insert, if_neg hstringOuter, empty])
  obtain ⟨inner, w₅, -, r₅, hinner, n₅⟩ := r₄.tidy.recordType
    (d := { origin := .missing, name := "Inner", binaryName := "Outer$Inner", typeVars := [U] }) (by
      rw [n₄, n₃, n₂, n₁, Std.HashMap.getElem?_insert, if_neg houterInner,
        Std.HashMap.getElem?_insert, if_neg hstringInner, empty])
  replace hstring := r₅.is_of (r₄.is_of (r₃.is_of (r₂.is_of hstring rfl) rfl) rfl) rfl
  replace hT := r₅.is_of (r₄.is_of (r₃.is_of hT rfl) rfl) rfl
  replace hU := r₅.is_of (r₄.is_of hU rfl) rfl
  replace houter := r₅.is_of houter rfl
  obtain ⟨array, w₆, -, r₆, harray⟩ := r₅.tidy.array hstring rfl rfl Nat.one_ne_zero
  have usable {x y z : TypeId} {w : World} (hx : w.Usable x) (hy : w.Usable y) (hz : w.Usable z) :
      ∀ a ∈ [x, y, z], w.Usable a :=
    List.forall_mem_cons.mpr ⟨hx, List.forall_mem_cons.mpr ⟨hy, List.forall_mem_singleton.mpr hz⟩⟩
  obtain ⟨outerT, w₇, -, r₇, houterT⟩ := r₆.tidy.parameterize (usable
    ((r₆.is_of houter rfl).usable rfl) r₆.tidy.canonical.usable_none ((r₆.is_of hT rfl).usable rfl))
  obtain ⟨t, w₈, -, r₈, ht⟩ := r₇.tidy.parameterize (usable
    (((r₆.trans r₇).is_of hinner rfl).usable rfl) (houterT.usable rfl)
    (((r₆.trans r₇).is_of hU rfl).usable rfl))
  have r := (r₆.trans r₇).trans r₈
  obtain ⟨outerS, w₉, -, r₉, houterS⟩ := r₈.tidy.parameterize (usable
    ((r.is_of houter rfl).usable rfl) r₈.tidy.canonical.usable_none
    (((r₇.trans r₈).is_of harray rfl).usable rfl))
  replace r := r.trans r₉
  obtain ⟨p, w, -, r₁₀, hp⟩ := r₉.tidy.parameterize (usable
    ((r.is_of hinner rfl).usable rfl) (houterS.usable rfl) ((r.is_of hstring rfl).usable rfl))
  replace r := r.trans r₁₀
  have hw := r₁₀.tidy.canonical
  replace hstring := r.is_of hstring rfl
  replace hT := r.is_of hT rfl
  replace hU := r.is_of hU rfl
  replace houter := r.is_of houter rfl
  replace hinner := r.is_of hinner rfl
  replace harray := (((r₇.trans r₈).trans r₉).trans r₁₀).is_of harray rfl
  replace houterT := ((r₈.trans r₉).trans r₁₀).is_of houterT rfl
  replace ht := (r₉.trans r₁₀).is_of ht rfl
  replace houterS := r₁₀.is_of houterS rfl
  have hTU : T ≠ U := by
    rintro rfl
    have hname : ("T" : Text) = "U" := congrArg Shape.name (hT.shape_eq hU)
    exact absurd hname (by decide)
  have meansNone : w.Means .none .absent := ⟨1, .absent⟩
  have meansString := hstring.means_atom rfl
  have meansArray : w.Means array (.array (.atom string) 1) :=
    ⟨_, .array harray.here Nat.one_ne_zero rfl meansString.choose_spec⟩
  have single {x : TypeId} {X : Term} (h : w.Means x X) : ∀ p ∈ [x].zip [X], w.Means p.1 p.2 :=
    List.forall_mem_singleton.mpr h
  have meansOuterT : w.Means outerT (.parameterized outer [.var T] .absent false) :=
    houterT.means_parameterized hw rfl (single hT.means_var) meansNone
  have meansTerm : w.Means t (.parameterized inner [.var U] _ false) :=
    ht.means_parameterized hw rfl (single hU.means_var) meansOuterT
  have meansOuterS : w.Means outerS
      (.parameterized outer [.array (.atom string) 1] .absent false) :=
    houterS.means_parameterized hw rfl (single meansArray) meansNone
  have meansInner : w.Means p (.parameterized inner [.atom string] _ false) :=
    hp.means_parameterized hw rfl (single meansString) meansOuterS
  have supplied : w.Supplied ⟨[U, T], [string, array]⟩ [.atom string, .array (.atom string) 1] :=
    ⟨rfl, List.forall_mem_cons.mpr ⟨meansString, single meansArray⟩⟩
  have replacesU : w.replacement ⟨[U, T], [string, array]⟩
      [.atom string, .array (.atom string) 1] U = some (.atom string) := by
    simp [replacement, hU.follow]
  have replacesT : w.replacement ⟨[U, T], [string, array]⟩
      [.atom string, .array (.atom string) 1] T = some (.array (.atom string) 1) := by
    simp [replacement, hU.follow, hT.follow, List.lookup_cons, beq_false_of_ne hTU]
  obtain ⟨⟨r, v, hrun, -, hmeans, -, htwice⟩, -⟩ := substitution_structural hw supplied meansTerm
  refine ⟨w, v, _, _, outer, inner, string, t, p, r, hw, supplied, ⟨T, U, meansTerm⟩, ?_, hrun, ?_,
    (htwice ?_).2 (.inl nofun)⟩
  · intro _
    have bindsNone : w.Binds w .none [] := by
      have hnone : w.Is .none .absent := ⟨hw.usable_none.1, hw.absent⟩
      exact .other (hnone.here ▸ rfl) (hnone.here ▸ rfl) (hnone.here ▸ rfl)
    have bindsOuter := Binds.parameterized houterS.here (houter.here ▸ rfl) bindsNone
    have bindsInner := Binds.parameterized hp.here (hinner.here ▸ rfl) bindsOuter
    rw [houter.here, hinner.here] at bindsInner
    exact (substitution_structural hw supplied meansTerm).2 p _ w _ meansInner bindsInner
  · simpa [Term.subst, Term.substAll, replacesU, replacesT] using hmeans
  · intro A hA
    obtain rfl | rfl : A = .atom string ∨ A = .array (.atom string) 1 := by simpa using hA
    · exact .atom
    · exact .array .atom

end World

end Javelin
