import Mathlib.Data.Finset.Card
import Javelin.Proofs.Types.Growing

/-!
# Redirecting placeholders

When a placeholder is looked up, it is replaced in everything that mentions it. A composite type
that turns out equal to another one is redirected in turn, and is replaced in everything that
mentions it, and so on.

1. `World.Amid`, the tables while this goes on: what still mentions a redirected type is in a list
   of replacements to be done.
2. What one replacement does, and that all replacements come to an end.
-/

namespace Javelin

open Run

namespace World

/-- One type in the place of another one. -/
def replaced (old new t : TypeId) : TypeId := if t == old then new else t

variable {w v w₀ : World} {old new p r t u x : TypeId} {c : Composite} {m : Mention}

theorem mem_map_replaced {ts : List TypeId} (hx : x ∈ ts.map (replaced old new)) :
    x = new ∧ old ∈ ts ∨ x ∈ ts ∧ x ≠ old := by
  obtain ⟨y, hy, rfl⟩ := List.mem_map.mp hx
  unfold replaced
  split
  next h => exact .inl ⟨rfl, beq_iff_eq.mp h ▸ hy⟩
  next h => exact .inr ⟨hy, fun h' => h (beq_iff_eq.mpr h')⟩

theorem mem_map_replaced_of_ne {ts : List TypeId} (hx : x ∈ ts) (hne : x ≠ old) :
    x ∈ ts.map (replaced old new) :=
  List.mem_map.mpr ⟨x, hx, if_neg fun h => hne (beq_iff_eq.mp h)⟩

/-! ## Types that are the same -/

theorem Same.symm (h : w.Same t u) : w.Same u t := by
  induction h with
  | number h => exact .number h.symm
  | placeholder ht hu h => exact .placeholder hu ht h.symm
  | composite ht hu h _ ih => exact .composite hu ht h.symm ih

theorem Same.trans (h : w.Same t u) (h' : w.Same u x) : w.Same t x := by
  induction h generalizing x with
  | number h =>
    cases h' with
    | number h' => exact .number (h.trans h')
    | placeholder hu hx h' => exact .placeholder (h ▸ hu) hx h'
    | composite hu hx h' hparts => exact .composite (h ▸ hu) hx h' hparts
  | placeholder ht hu h =>
    cases h' with
    | number h' => exact .placeholder ht (h' ▸ hu) h
    | placeholder hu' hx h' =>
      cases hu.symm.trans hu'
      exact .placeholder ht hx (h.trans h')
    | composite hu' => cases hu.symm.trans hu'
  | composite ht hu h hparts ih =>
    cases h' with
    | number h' => exact .composite ht (h' ▸ hu) h hparts
    | placeholder hu' => cases hu.symm.trans hu'
    | composite hu' hx h' hparts' =>
      cases hu.symm.trans hu'
      exact .composite ht hx (h.trans h') fun i => ih i (hparts' i)

/-- The world in which a type is redirected, and nothing is replaced yet. -/
def redirecting (w : World) (p r : TypeId) : World :=
  { w with redirects := w.redirects.insert p r }

/-- Of two types that become the same when `p` is redirected to `r`, one mentions no placeholder. -/
def Apart (w : World) (p r : TypeId) : Prop :=
  ∀ {t u : TypeId}, w.Waits t → w.Waits u → (w.redirecting p r).Same t u → t = u

/-! ## The tables while types are replaced -/

/-- The tables on the way from `w₀`, while `p` is replaced by `r`. Each type of the list is still to
be replaced in what stands beside it. A stray type was made equal to another one and is still to be
redirected. -/
structure Amid (w₀ : World) (p r : TypeId) (stray : Option TypeId)
    (todo : List (TypeId × Mention)) (w : World) : Prop where
  size : w.types.size = w₀.types.size
  placeholders : w.placeholders = w₀.placeholders
  byBinaryName : w.byBinaryName = w₀.byBinaryName
  marks : ∀ t : TypeId, (w.row t).isPending = (w₀.row t).isPending
  placeholder : ∃ ps,
    (w₀.row p).shape = .unresolved ps false ∧ (w.row p).shape = .unresolved ps true
  redirected : ¬ w.IsLive p
  /-- Types that mention no placeholder stay as they are. -/
  settled : ∀ {t : TypeId}, ¬ w₀.Waits t →
    w.row t = w₀.row t ∧ w.redirects[t]? = w₀.redirects[t]?
  other : ∀ {t : TypeId}, t ≠ p → (∀ c, (w₀.row t).shape ≠ .composite c) →
    (w.row t).shape = (w₀.row t).shape
  /-- A composite type is made of other numbers for the same types. -/
  composite : ∀ {t : TypeId} {c : Composite}, (w₀.row t).shape = .composite c →
    ∃ d, (w.row t).shape = .composite d ∧ c.skeleton = d.skeleton ∧
      ∀ i, (w₀.redirecting p r).Same (c.components.getD i .none) (d.components.getD i .none)
  /-- What is redirected is the placeholder, or has the shape of a type without placeholders. -/
  redirect : ∀ {t u : TypeId}, w₀.Waits t → w.redirects[t]? = some u →
    w₀.IsLive u ∧ ¬ w₀.Waits u ∧ u.index < w₀.types.size ∧
      (t = p ∧ u = r ∨ ∃ c, (w.row t).shape = .composite c ∧ (w.row u).shape = .composite c)
  known : ∀ {c : Composite} {t : TypeId},
    w.composites[c]? = some t ↔ (stray ≠ some t ∧ w.IsLive t) ∧ (w.row t).shape = .composite c
  live : ∀ {m : Mention} {x : TypeId}, w.InUse m → x ∈ w.mentioned m →
    w.IsLive x ∨ (x, m) ∈ todo
  inside : ∀ {m : Mention} {x : TypeId}, x ∈ w.mentioned m → x.index < w.types.size
  noted : ∀ {m : Mention} {x : TypeId}, w.InUse m → x ∈ w.mentioned m → w₀.Waits x →
    w.IsLive x → m ∈ (w.row x).mentions
  mention : ∀ {t x : TypeId}, .type t ∈ (w.row x).mentions →
    x.index < t.index ∧ (w₀.Waits x → w.IsLive x → w.IsLive t ∧ x ∈ w.mentioned (.type t))
  once : ∀ x : TypeId, (w.row x).mentions.Nodup
  flat : ∀ {t e : TypeId} {n : Nat},
    (w.row t).shape = .composite (.array e n) → (w.row e).shape.isArray = false
  todo_waits : ∀ {x : TypeId} {m : Mention}, (x, m) ∈ todo → w₀.Waits x ∧ ¬ w.IsLive x
  todo_type : ∀ {x t : TypeId}, (x, .type t) ∈ todo → w.IsLive t ∧ x ∈ w.mentioned (.type t)
  todo_once : todo.Nodup

/-- What holds of the placeholder and the type that it turns out to be. -/
structure Turns (w₀ : World) (p r : TypeId) : Prop where
  canonical : w₀.Canonical
  placeholder : ∃ ps, (w₀.row p).shape = .unresolved ps false
  declared : (w₀.row r).shape.isDeclared = true
  apart : w₀.Apart p r

namespace Turns

theorem waits (h : w₀.Turns p r) : w₀.Waits p := by
  obtain ⟨ps, hp⟩ := h.placeholder
  exact .placeholder (by rw [hp]; rfl)

theorem live (h : w₀.Turns p r) : w₀.IsLive r := h.canonical.declared h.declared

theorem not_waits (h : w₀.Turns p r) : ¬ w₀.Waits r := not_waits_of_declared h.declared

theorem lt_size (h : w₀.Turns p r) : r.index < w₀.types.size := by
  refine lt_size_of_shape ?_
  have hr := h.declared
  revert hr
  cases (w₀.row r).shape <;> simp [Shape.isDeclared, Shape.declared?, Shape.isAbsent]

theorem ends (h : w₀.Turns p r) (ht : (w₀.redirecting p r).redirects[t]? = some u) :
    (w₀.redirecting p r).IsLive u := by
  unfold redirecting at ht
  unfold redirecting IsLive
  simp only [Std.HashMap.getElem?_insert, beq_iff_eq] at ht ⊢
  split at ht
  next =>
    obtain rfl : r = u := Option.some.inj ht
    rw [if_neg]
    · exact h.live
    · rintro rfl
      exact h.not_waits h.waits
  next =>
    have hu := h.canonical.ends ht
    rw [if_neg]
    · exact hu.1
    · rintro rfl
      exact hu.2 h.waits

theorem follow_self (h : w₀.Turns p r) : (w₀.redirecting p r).follow p = r := by
  have hp : (w₀.redirecting p r).redirects[p]? = some r := Std.HashMap.getElem?_insert_self
  exact follow_redirected hp (h.ends hp)

end Turns

theorem follow_redirecting (ht : w₀.IsLive t) (hne : t ≠ p) :
    (w₀.redirecting p r).follow t = t := by
  refine follow_live ?_
  unfold redirecting IsLive
  rw [Std.HashMap.getElem?_insert, if_neg fun hp => hne (beq_iff_eq.mp hp).symm]
  exact ht

namespace Amid

variable {stray : Option TypeId} {todo : List (TypeId × Mention)}

/-- What a type is redirected to stays as it is. -/
theorem target (a : w₀.Amid p r stray todo w) (ht : w₀.Waits t) (hu : w.redirects[t]? = some u) :
    w.IsLive u := by
  obtain ⟨hlive, hwaits, -⟩ := a.redirect ht hu
  exact (a.settled hwaits).2.trans hlive

theorem target_ne (a : w₀.Amid p r stray todo w) (ht : w₀.Waits t) (hu : w.redirects[t]? = some u) :
    u ≠ t := by
  rintro rfl
  exact (a.redirect ht hu).2.1 ht

/-- A redirected type is the same as its target. -/
theorem redirected_same (a : w₀.Amid p r stray todo w) (h : w₀.Turns p r) (ht : w₀.Waits t)
    (hu : w.redirects[t]? = some u) : (w₀.redirecting p r).Same t u := by
  obtain ⟨hlive, hwaits, -, ⟨rfl, rfl⟩ | ⟨c, htc, huc⟩⟩ := a.redirect ht hu
  · refine .number ?_
    rw [h.follow_self, follow_redirecting hlive (by rintro rfl; exact hwaits ht)]
  · have hp : t ≠ p := by
      rintro rfl
      obtain ⟨ps, -, hps⟩ := a.placeholder
      cases hps.symm.trans htc
    have hup : u ≠ p := by
      rintro rfl
      exact hwaits h.waits
    cases hs : (w₀.row t).shape with
    | composite c₀ =>
      obtain ⟨d, hd, hskeleton, hparts⟩ := a.composite hs
      obtain rfl : d = c := Shape.composite.inj (hd.symm.trans htc)
      refine .composite (c := c₀) (d := d) ?_ ?_ hskeleton hparts
      · rw [follow_redirecting (h.canonical.waiting ht) hp]
        exact hs
      · rw [follow_redirecting hlive hup]
        exact (congrArg TypeEntry.shape (a.settled hwaits).1).symm.trans huc
    | _ =>
      have := a.other hp (by rw [hs]; nofun)
      rw [hs, htc] at this
      cases this

theorem same_replaced (h : (w₀.redirecting p r).Same old new) (x : TypeId) :
    (w₀.redirecting p r).Same x (replaced old new x) := by
  unfold replaced
  split
  next hx => exact beq_iff_eq.mp hx ▸ h
  next => exact .number rfl

theorem same_map_replaced (h : (w₀.redirecting p r).Same old new) (ts : List TypeId) (i : Nat) :
    (w₀.redirecting p r).Same (ts.getD i .none) ((ts.map (replaced old new)).getD i .none) := by
  rw [List.getD_eq_getElem?_getD, List.getD_eq_getElem?_getD, List.getElem?_map]
  cases ts[i]? with
  | none => exact .number rfl
  | some x => exact same_replaced h x

/-- What still mentions a redirected type waits. -/
theorem waits_of_mentioned (a : w₀.Amid p r stray todo w) (hx : x ∈ w.mentioned (.type t))
    (hwaits : w₀.Waits x) : w₀.Waits t := by
  by_contra ht
  obtain ⟨c, hc, hxc⟩ := mem_mentioned_type.mp hx
  rw [(a.settled ht).1] at hc
  exact ht (.part hc hxc hwaits)

end Amid

/-- One type is replaced by another one in something that mentions it. -/
structure Replaces (old new : TypeId) (m : Mention) (stray : Option TypeId) (w v : World) :
    Prop where
  size : v.types.size = w.types.size
  redirects : v.redirects = w.redirects
  placeholders : v.placeholders = w.placeholders
  byBinaryName : v.byBinaryName = w.byBinaryName
  row : ∀ {x : TypeId}, .type x ≠ m → v.row x = w.row x
  type : ∀ {t : TypeId}, m = .type t → ∃ c, (w.row t).shape = .composite c ∧
    v.row t = { w.row t with shape := .composite (c.map (replaced old new)) }
  mentions : v.mentioned m = (w.mentioned m).map (replaced old new)
  others : ∀ {n : Mention}, n ≠ m → v.mentioned n = w.mentioned n
  known : ∀ {c : Composite} {t : TypeId},
    v.composites[c]? = some t ↔ (stray ≠ some t ∧ v.IsLive t) ∧ (v.row t).shape = .composite c

theorem isArray_map (f : TypeId → TypeId) (c : Composite) :
    (Shape.composite (c.map f)).isArray = (Shape.composite c).isArray := by
  cases c <;> rfl

namespace Amid

variable {stray : Option TypeId} {todo : List (TypeId × Mention)}

/-- What replaces the element of an array is no array. -/
theorem flat_replaced (a : w₀.Amid p r stray todo w) (h : w₀.Turns p r) (hold : w₀.Waits old)
    (hnew : w.redirects[old]? = some new) {e : TypeId} (he : (w.row e).shape.isArray = false) :
    (w.row (replaced old new e)).shape.isArray = false := by
  unfold replaced
  split
  next heq =>
    obtain rfl := beq_iff_eq.mp heq
    obtain ⟨-, hwaits, -, ⟨rfl, rfl⟩ | ⟨c, hoc, hnc⟩⟩ := a.redirect hold hnew
    · rw [(a.settled hwaits).1]
      have hdeclared := h.declared
      revert hdeclared
      cases (w₀.row new).shape <;> simp [Shape.isDeclared, Shape.declared?, Shape.isArray]
    · rw [hnc, ← hoc]
      exact he
  next => exact he

theorem replace (a : w₀.Amid p r none ((old, m) :: todo) w) (h : w₀.Turns p r)
    (hnew : w.redirects[old]? = some new) (s : Replaces old new m stray w v) :
    w₀.Amid p r stray todo v := by
  have isLive (x : TypeId) : v.IsLive x ↔ w.IsLive x := by rw [IsLive, IsLive, s.redirects]
  have inUse (n : Mention) : v.InUse n ↔ w.InUse n := by
    cases n with
    | type t => exact isLive t
    | _ => exact Iff.rfl
  have hold := (a.todo_waits List.mem_cons_self).1
  have hsame := a.redirected_same h hold hnew
  obtain ⟨hnewLive₀, hnewWaits, hnewSize, -⟩ := a.redirect hold hnew
  have mentionsOf (x : TypeId) : (v.row x).mentions = (w.row x).mentions := by
    by_cases hx : .type x = m
    · obtain ⟨c, -, hrow⟩ := s.type hx.symm
      rw [hrow]
    · rw [s.row hx]
  have marksOf (x : TypeId) : (v.row x).isPending = (w.row x).isPending := by
    by_cases hx : .type x = m
    · obtain ⟨c, -, hrow⟩ := s.type hx.symm
      rw [hrow]
    · rw [s.row hx]
  -- A mentioned type is the new one, or was mentioned before and is not the old one.
  have mentioned {n : Mention} {x : TypeId} (hx : x ∈ v.mentioned n) :
      n = m ∧ x = new ∨ x ∈ w.mentioned n ∧ (n = m → x ≠ old) := by
    by_cases hn : n = m
    · subst hn
      rw [s.mentions] at hx
      exact (mem_map_replaced hx).imp (fun hx => ⟨rfl, hx.1⟩) fun hx => ⟨hx.1, fun _ => hx.2⟩
    · rw [s.others hn] at hx
      exact .inr ⟨hx, fun h => absurd h hn⟩
  have stays {n : Mention} {x : TypeId} (hx : x ∈ w.mentioned n) (hne : n = m → x ≠ old) :
      x ∈ v.mentioned n := by
    by_cases hn : n = m
    · subst hn
      rw [s.mentions]
      exact mem_map_replaced_of_ne hx (hne rfl)
    · rwa [s.others hn]
  have shapeOf {x : TypeId} : (v.row x).shape = (w.row x).shape ∨ ∃ c, .type x = m ∧
      (w.row x).shape = .composite c ∧ (v.row x).shape = .composite (c.map (replaced old new)) := by
    by_cases hx : .type x = m
    · obtain ⟨c, hc, hrow⟩ := s.type hx.symm
      exact .inr ⟨c, hx, hc, by rw [hrow]⟩
    · exact .inl (by rw [s.row hx])
  have hp : .type p ≠ m := by
    rintro rfl
    exact a.redirected (a.todo_type List.mem_cons_self).1
  have waits {t : TypeId} (ht : m = .type t) : w₀.Waits t :=
    a.waits_of_mentioned (a.todo_type (ht ▸ List.mem_cons_self)).2 hold
  have notArray {e : TypeId} (he : (w.row e).shape.isArray = false) :
      (v.row e).shape.isArray = false := by
    obtain hs | ⟨c, -, hw, hv⟩ := shapeOf (x := e)
    · rwa [hs]
    · rw [hv, isArray_map, ← hw]
      exact he
  exact
    { size := s.size.trans a.size
      placeholders := s.placeholders.trans a.placeholders
      byBinaryName := s.byBinaryName.trans a.byBinaryName
      marks := fun t => (marksOf t).trans (a.marks t)
      placeholder := by
        rw [s.row hp]
        exact a.placeholder
      redirected := fun hlive => a.redirected ((isLive p).mp hlive)
      settled := fun {t} ht => by
        rw [s.redirects, s.row fun hm => ht (waits hm.symm)]
        exact a.settled ht
      other := fun {t} hne hs₀ => by
        have hs := a.other hne hs₀
        obtain hv | ⟨c, -, hw, -⟩ := shapeOf (x := t)
        · exact hv.trans hs
        · exact absurd (hs.symm.trans hw) (hs₀ c)
      composite := fun {t c₀} hs₀ => by
        obtain ⟨d, hd, hskeleton, hparts⟩ := a.composite hs₀
        obtain hv | ⟨c, -, hw, hv⟩ := shapeOf (x := t)
        · exact ⟨d, hv.trans hd, hskeleton, hparts⟩
        · obtain rfl : c = d := Shape.composite.inj (hw.symm.trans hd)
          refine ⟨_, hv, hskeleton.trans (Composite.skeleton_map ..).symm, fun i => ?_⟩
          rw [Composite.components_map]
          exact (hparts i).trans (same_map_replaced hsame c.components i)
      redirect := fun {t u} ht hu => by
        rw [s.redirects] at hu
        obtain ⟨hlive, hwaits, hlt, hcase⟩ := a.redirect ht hu
        refine ⟨hlive, hwaits, hlt, hcase.imp_right ?_⟩
        rintro ⟨c, htc, huc⟩
        refine ⟨c, ?_, ?_⟩
        · rwa [s.row]
          rintro rfl
          have hlive : w.redirects[t]? = none := (a.todo_type List.mem_cons_self).1
          cases hlive.symm.trans hu
        · rwa [s.row fun hm => hwaits (waits hm.symm)]
      known := s.known
      live := fun {n x} hn hx => by
        obtain ⟨rfl, rfl⟩ | ⟨hx, hne⟩ := mentioned hx
        · exact .inl ((isLive x).mpr (a.target hold hnew))
        · refine (a.live ((inUse n).mp hn) hx).imp (isLive x).mpr fun hmem => ?_
          rcases List.mem_cons.mp hmem with heq | hmem
          · cases heq
            exact absurd rfl (hne rfl)
          · exact hmem
      inside := fun {n x} hx => by
        rw [s.size]
        obtain ⟨rfl, rfl⟩ | ⟨hx, hne⟩ := mentioned hx
        · exact a.size ▸ hnewSize
        · exact a.inside hx
      noted := fun {n x} hn hx hwaits hlive => by
        rw [mentionsOf]
        obtain ⟨rfl, rfl⟩ | ⟨hx, hne⟩ := mentioned hx
        · exact absurd hwaits hnewWaits
        · exact a.noted ((inUse n).mp hn) hx hwaits ((isLive x).mp hlive)
      mention := fun {t x} ht => by
        rw [mentionsOf] at ht
        obtain ⟨hlt, hmention⟩ := a.mention ht
        refine ⟨hlt, fun hwaits hlive => ?_⟩
        rw [isLive] at hlive
        obtain ⟨ht, hx⟩ := hmention hwaits hlive
        refine ⟨(isLive t).mpr ht, stays hx fun _ hxold => ?_⟩
        exact (a.todo_waits List.mem_cons_self).2 (hxold ▸ hlive)
      once := fun x => mentionsOf x ▸ a.once x
      flat := fun {t e n} hs => by
        obtain hv | ⟨c, hm, hw, hv⟩ := shapeOf (x := t)
        · exact notArray (a.flat (hv.symm.trans hs))
        · cases c with
          | array e₀ k =>
            obtain ⟨rfl, rfl⟩ : replaced old new e₀ = e ∧ k = n := by
              simpa [Composite.map] using hv.symm.trans hs
            exact notArray (a.flat_replaced h hold hnew (a.flat hw))
          | _ => cases hv.symm.trans hs
      todo_waits := fun hmem =>
        (a.todo_waits (List.mem_cons_of_mem _ hmem)).imp_right fun hnot hlive =>
          hnot ((isLive _).mp hlive)
      todo_type := fun {x t} hmem => by
        obtain ⟨hlive, hx⟩ := a.todo_type (List.mem_cons_of_mem _ hmem)
        refine ⟨(isLive t).mpr hlive, stays hx ?_⟩
        rintro rfl rfl
        exact (List.nodup_cons.mp a.todo_once).1 hmem
      todo_once := (List.nodup_cons.mp a.todo_once).2 }

/-- A composite type was one before, made of the same types. -/
theorem composite_before (a : w₀.Amid p r stray todo w) (hne : t ≠ p)
    (hc : (w.row t).shape = .composite c) :
    ∃ c₀, (w₀.row t).shape = .composite c₀ ∧ c₀.skeleton = c.skeleton ∧
      ∀ i, (w₀.redirecting p r).Same (c₀.components.getD i .none) (c.components.getD i .none) := by
  by_cases hcomposite : ∃ c₀, (w₀.row t).shape = .composite c₀
  · obtain ⟨c₀, hc₀⟩ := hcomposite
    obtain ⟨d, hd, hlike⟩ := a.composite hc₀
    obtain rfl : c = d := Shape.composite.inj (hc.symm.trans hd)
    exact ⟨c₀, hc₀, hlike⟩
  · have hs := a.other hne fun c₀ hc₀ => hcomposite ⟨c₀, hc₀⟩
    exact absurd ⟨c, hs.symm.trans hc⟩ hcomposite

/-- Two types that wait and have the same shape are one type. -/
theorem eq_of_shapes (a : w₀.Amid p r stray todo w) (h : w₀.Turns p r) (ht : w₀.Waits t)
    (hu : w₀.Waits u) (htp : t ≠ p) (hup : u ≠ p) (htc : (w.row t).shape = .composite c)
    (huc : (w.row u).shape = .composite c) : t = u := by
  obtain ⟨c₀, hc₀, hcs, hcp⟩ := a.composite_before htp htc
  obtain ⟨d₀, hd₀, hds, hdp⟩ := a.composite_before hup huc
  refine h.apart ht hu (.composite (c := c₀) (d := d₀) ?_ ?_ (hcs.trans hds.symm)
    fun i => (hcp i).trans (hdp i).symm)
  · rw [follow_redirecting (h.canonical.waiting ht) htp]
    exact hc₀
  · rw [follow_redirecting (h.canonical.waiting hu) hup]
    exact hd₀

/-- A stray type is redirected to the type that it became equal to. -/
theorem redirectStray (a : w₀.Amid p r (some t) todo w) (h : w₀.Turns p r) (ht : w₀.Waits t)
    (hlive : w.IsLive t) (hc : (w.row t).shape = .composite c) (hu : w.composites[c]? = some u) :
    w₀.Amid p r none ((w.row t).mentions.map (t, ·) ++ todo)
      { w with redirects := w.redirects.insert t u } := by
  obtain ⟨⟨hstray, huLive⟩, huShape⟩ := a.known.mp hu
  have hut : u ≠ t := fun hut => hstray (congrArg some hut.symm)
  have htp : t ≠ p := by
    rintro rfl
    exact a.redirected hlive
  have hup : u ≠ p := by
    rintro rfl
    exact a.redirected huLive
  -- The other type mentions no placeholder, or the two would be one type.
  have huWaits : ¬ w₀.Waits u := fun hwaits =>
    hut (a.eq_of_shapes h ht hwaits htp hup hc huShape).symm
  have huSettled := a.settled huWaits
  -- So nothing that may still be replaced is left in the stray type.
  have spent {x : TypeId} (hx : x ∈ w.mentioned (.type t)) : ¬ w₀.Waits x := fun hwaits =>
    huWaits (.part (huSettled.1 ▸ huShape) (mentioned_type hc ▸ hx) hwaits)
  set v : World := { w with redirects := w.redirects.insert t u } with hv
  have redirectsOf (x : TypeId) :
      v.redirects[x]? = if x = t then some u else w.redirects[x]? := by
    change (w.redirects.insert t u)[x]? = _
    rw [Std.HashMap.getElem?_insert]
    by_cases hx : x = t
    · simp [hx]
    · simp [hx, Ne.symm hx]
  have isLive (x : TypeId) : v.IsLive x ↔ x ≠ t ∧ w.IsLive x := by
    rw [IsLive, IsLive, redirectsOf]
    by_cases hx : x = t
    · simp [hx]
    · simp [hx]
  have inUse {n : Mention} (hn : v.InUse n) : n ≠ .type t ∧ w.InUse n := by
    cases n with
    | type x =>
      obtain ⟨hx, hlive⟩ := (isLive x).mp hn
      exact ⟨fun h => hx (Mention.type.inj h), hlive⟩
    | _ => exact ⟨(fun h => by cases h), trivial⟩
  exact
    { size := a.size
      placeholders := a.placeholders
      byBinaryName := a.byBinaryName
      marks := a.marks
      placeholder := a.placeholder
      redirected := fun hlive => a.redirected ((isLive p).mp hlive).2
      settled := fun {x} hx => by
        rw [redirectsOf, if_neg]
        · exact a.settled hx
        · rintro rfl
          exact hx ht
      other := a.other
      composite := a.composite
      redirect := fun {x y} hx hy => by
        rw [redirectsOf] at hy
        split at hy
        next hxt =>
          obtain rfl := Option.some.inj hy
          have huSize := lt_size_of_composite huShape
          exact ⟨huSettled.2.symm.trans huLive, huWaits, a.size ▸ huSize,
            .inr ⟨c, hxt ▸ hc, huShape⟩⟩
        next => exact a.redirect hx hy
      known := fun {d x} => by
        rw [isLive]
        simp only [ne_eq, reduceCtorEq, not_false_eq_true, true_and]
        refine a.known.trans ?_
        rw [ne_comm, ne_eq, Option.some.injEq]
        exact Iff.rfl
      live := fun {n x} hn hx => by
        have hnUse := (inUse hn).2
        rcases a.live hnUse hx with hxLive | hmem
        · by_cases hxt : x = t
          · subst hxt
            exact .inr (List.mem_append_left _ (List.mem_map_of_mem (a.noted hnUse hx ht hxLive)))
          · exact .inl ((isLive x).mpr ⟨hxt, hxLive⟩)
        · exact .inr (List.mem_append_right _ hmem)
      inside := a.inside
      noted := fun {n x} hn hx hwaits hxLive =>
        a.noted (inUse hn).2 hx hwaits ((isLive x).mp hxLive).2
      mention := fun {s x} hs => by
        obtain ⟨hlt, hmention⟩ := a.mention hs
        refine ⟨hlt, fun hwaits hxLive => ?_⟩
        obtain ⟨hsLive, hx⟩ := hmention hwaits ((isLive x).mp hxLive).2
        refine ⟨(isLive s).mpr ⟨?_, hsLive⟩, hx⟩
        rintro rfl
        exact spent hx hwaits
      once := a.once
      flat := a.flat
      todo_waits := fun {x n} hmem => by
        rcases List.mem_append.mp hmem with hnew | hmem
        · obtain ⟨k, -, heq⟩ := List.mem_map.mp hnew
          cases heq
          exact ⟨ht, fun hlive => ((isLive _).mp hlive).1 rfl⟩
        · exact (a.todo_waits hmem).imp_right fun hnot hlive => hnot ((isLive x).mp hlive).2
      todo_type := fun {x s} hmem => by
        rcases List.mem_append.mp hmem with hnew | hold
        · obtain ⟨k, hk, heq⟩ := List.mem_map.mp hnew
          cases heq
          obtain ⟨hlt, hmention⟩ := a.mention hk
          obtain ⟨hsLive, hx⟩ := hmention ht hlive
          refine ⟨(isLive s).mpr ⟨?_, hsLive⟩, hx⟩
          rintro rfl
          exact Nat.lt_irrefl _ hlt
        · obtain ⟨hsLive, hx⟩ := a.todo_type hold
          refine ⟨(isLive s).mpr ⟨?_, hsLive⟩, hx⟩
          rintro rfl
          exact spent hx (a.todo_waits hold).1
      todo_once := by
        refine List.nodup_append.mpr
          ⟨(a.once t).map fun _ _ h => (Prod.mk.inj h).2, a.todo_once, ?_⟩
        rintro x hx y hy rfl
        obtain ⟨k, -, rfl⟩ := List.mem_map.mp hx
        exact (a.todo_waits hy).2 hlive }

/-- What is noted at a redirected type may be forgotten. -/
theorem clear (a : w₀.Amid p r none todo w) (hold : w₀.Waits old) (hnotLive : ¬ w.IsLive old) :
    w₀.Amid p r none todo (w.withRow old fun e => { e with mentions := [] }) := by
  have hsize : old.index < w.types.size := a.size ▸ hold.lt_size
  set v : World := w.withRow old fun e => { e with mentions := [] } with hv
  have row (x : TypeId) : v.row x =
      if x = old then { w.row old with mentions := [] } else w.row x :=
    row_withRow hsize _ x
  have rowOther {x : TypeId} (hx : x ≠ old) : v.row x = w.row x := (row x).trans (if_neg hx)
  have shapeOf (x : TypeId) : (v.row x).shape = (w.row x).shape := by
    rw [row]
    split
    next hx => rw [hx]
    next => rfl
  have mentioned (n : Mention) : v.mentioned n = w.mentioned n :=
    mentioned_congr rfl rfl fun x _ => shapeOf x
  have mentionsOf {x : TypeId} {n : Mention} (hn : n ∈ (v.row x).mentions) :
      n ∈ (w.row x).mentions := by
    rw [row] at hn
    split at hn
    · cases hn
    · exact hn
  exact
    { size := (size_withRow ..).trans a.size
      placeholders := a.placeholders
      byBinaryName := a.byBinaryName
      marks := fun x => by
        refine Eq.trans ?_ (a.marks x)
        rw [row]
        split
        next hx => rw [hx]
        next => rfl
      placeholder := by
        rw [shapeOf]
        exact a.placeholder
      redirected := a.redirected
      settled := fun {x} hx => by
        rw [rowOther]
        · exact a.settled hx
        · rintro rfl
          exact hx hold
      other := fun hne hs₀ => (shapeOf _).trans (a.other hne hs₀)
      composite := fun hs₀ => by
        rw [shapeOf]
        exact a.composite hs₀
      redirect := fun ht hu => by
        rw [shapeOf, shapeOf]
        exact a.redirect ht hu
      known := fun {c x} => by
        rw [shapeOf]
        exact a.known
      live := fun {n x} hn hx => a.live (m := n) hn (mentioned n ▸ hx)
      inside := fun {n x} hx => by
        rw [show v.types.size = w.types.size from size_withRow ..]
        exact a.inside (mentioned n ▸ hx)
      noted := fun {n x} hn hx hwaits hlive => by
        rw [rowOther]
        · exact a.noted hn (mentioned n ▸ hx) hwaits hlive
        · rintro rfl
          exact hnotLive hlive
      mention := fun {t x} ht => by
        rw [mentioned]
        exact a.mention (mentionsOf ht)
      once := fun x => by
        rw [row]
        split
        · exact List.nodup_nil
        · exact a.once x
      flat := fun {t e n} hs => by
        rw [shapeOf] at hs ⊢
        exact a.flat hs
      todo_waits := a.todo_waits
      todo_type := fun hmem => by
        rw [mentioned]
        exact a.todo_type hmem
      todo_once := a.todo_once }

/-- The placeholder is none after it was redirected. -/
theorem not_waits (a : w₀.Amid p r none todo w) : ¬ w.Waits p := by
  obtain ⟨ps, -, hps⟩ := a.placeholder
  rintro (hs | ⟨hs, -, -⟩)
  · rw [hps] at hs
    cases hs
  · cases hps.symm.trans hs

/-- A type other than the placeholder has the shape that it had, or is a composite type still. -/
theorem shape_cases (a : w₀.Amid p r none todo w) (hne : t ≠ p) :
    (w.row t).shape = (w₀.row t).shape ∨ ∃ c, (w.row t).shape = .composite c := by
  by_cases hcomposite : ∃ c₀, (w₀.row t).shape = .composite c₀
  · obtain ⟨c₀, hc₀⟩ := hcomposite
    obtain ⟨c, hc, -⟩ := a.composite hc₀
    exact .inr ⟨c, hc⟩
  · exact .inl (a.other hne fun c hc => hcomposite ⟨c, hc⟩)

/-- No type waits that did not wait before. -/
theorem waits_before (a : w₀.Amid p r none todo w) (h : w.Waits x) : w₀.Waits x := by
  induction h with
  | @placeholder t hs =>
    have hne : t ≠ p := by
      rintro rfl
      exact a.not_waits (.placeholder hs)
    obtain hsame | ⟨c, hc⟩ := a.shape_cases hne
    · exact .placeholder (hsame ▸ hs)
    · rw [hc] at hs
      cases hs
  | part hs hx _ ih => exact a.waits_of_mentioned (mentioned_type hs ▸ hx) ih

theorem live_of_waits (a : w₀.Amid p r none todo w) (h : w.Waits t) : w.IsLive t := by
  cases ht : w.redirects[t]? with
  | none => exact ht
  | some u =>
    obtain ⟨-, hwaits, -, ⟨rfl, rfl⟩ | ⟨c, htc, huc⟩⟩ := a.redirect (a.waits_before h) ht
    · exact absurd h a.not_waits
    · cases h with
      | placeholder hs =>
        rw [htc] at hs
        cases hs
      | part hs hx hwaitsPart =>
        cases htc.symm.trans hs
        rw [(a.settled hwaits).1] at huc
        exact absurd (.part huc hx (a.waits_before hwaitsPart)) hwaits

/-- When everything is replaced, the tables are canonical again. -/
theorem canonical (a : w₀.Amid p r none [] w) (h : w₀.Turns p r) : w.Canonical := by
  have hw₀ := h.canonical
  have unchanged {t : TypeId} (hs : ∀ c, (w.row t).shape ≠ .composite c) (hne : t ≠ p) :
      (w.row t).shape = (w₀.row t).shape :=
    (a.shape_cases hne).resolve_right fun ⟨c, hc⟩ => hs c hc
  exact
    { absent := by
        have hnone : ¬ w₀.Waits .none := by
          rintro (hs | ⟨hs, -, -⟩) <;> rw [hw₀.absent] at hs <;> cases hs
        rw [(a.settled hnone).1]
        exact hw₀.absent
      known := a.known.trans (by simp)
      ends := fun {t u} ht => by
        by_cases hwaits : w₀.Waits t
        · exact ⟨a.target hwaits ht, fun hu => (a.redirect hwaits ht).2.1 (a.waits_before hu)⟩
        · rw [(a.settled hwaits).2] at ht
          obtain ⟨hlive, hu⟩ := hw₀.ends ht
          exact ⟨(a.settled hu).2.trans hlive, fun hu' => hu (a.waits_before hu')⟩
      waiting := a.live_of_waits
      live := fun hn hx => (a.live hn hx).resolve_right nofun
      inside := a.inside
      noted := fun hn hx hwaits => a.noted hn hx (a.waits_before hwaits) (a.live_of_waits hwaits)
      mention := fun ht => (a.mention ht).imp_right fun hmention hwaits =>
        hmention (a.waits_before hwaits) (a.live_of_waits hwaits)
      once := a.once
      marked := fun {t} hwaits => by
        rw [a.marks]
        refine (hw₀.marked (a.waits_before hwaits)).imp_right fun hs => ?_
        have hne : t ≠ p := by
          rintro rfl
          exact a.not_waits hwaits
        rwa [a.other hne]
        intro c hc
        rw [hc] at hs
        cases hs
      flat := a.flat
      placeholder := fun {t ps b} hs => by
        rw [a.placeholders]
        by_cases hne : t = p
        · subst hne
          obtain ⟨qs, hqs₀, hqs⟩ := a.placeholder
          cases hqs.symm.trans hs
          exact hw₀.placeholder hqs₀
        · exact hw₀.placeholder (unchanged (by rw [hs]; nofun) hne ▸ hs)
      resolved := fun {t ps} hs => by
        by_cases hne : t = p
        · exact hne ▸ a.redirected
        · have hnot := hw₀.resolved (unchanged (by rw [hs]; nofun) hne ▸ hs)
          have hsettled := (a.settled fun hwaits => hnot (hw₀.waiting hwaits)).2
          exact fun hlive => hnot (hsettled.symm.trans hlive)
      declared := fun {t} hs => by
        have hne : t ≠ p := by
          rintro rfl
          obtain ⟨ps, -, hps⟩ := a.placeholder
          rw [hps] at hs
          cases hs
        have hcomposite (c : Composite) : (w.row t).shape ≠ .composite c := by
          intro hc
          rw [hc] at hs
          cases hs
        rw [unchanged hcomposite hne] at hs
        exact (a.settled (not_waits_of_declared hs)).2.trans (hw₀.declared hs)
      named := fun {name t} ht => by
        rw [a.byBinaryName] at ht
        have hs := hw₀.named ht
        rw [(a.settled (not_waits_of_declared hs)).1]
        exact hs
      redirected := fun {t u} ht => by
        rw [a.size]
        by_cases hwaits : w₀.Waits t
        · exact ⟨hwaits.lt_size, (a.redirect hwaits ht).2.2.1⟩
        · exact hw₀.redirected ((a.settled hwaits).2 ▸ ht) }

end Amid

/-! ## The run -/

theorem modify_run {ε σ : Type} (f : σ → σ) (s : σ) :
    (modify f : EStateM ε σ PUnit) s = .ok ⟨⟩ (f s) := rfl

theorem withRow_composites (w : World) (t : TypeId) (f : TypeEntry → TypeEntry) :
    (w.withRow t f).composites = w.composites := rfl

/-- The world in which a composite type gets other components. -/
def reshaping (w : World) (t : TypeId) (c d : Composite) : World :=
  { w.withRow t fun e => { e with shape := .composite d } with
    composites := w.composites.erase c }

namespace Amid

variable {todo : List (TypeId × Mention)}

theorem row_reshaping (ht : t.index < w.types.size) (c d : Composite) (x : TypeId) :
    (w.reshaping t c d).row x = if x = t then { w.row t with shape := .composite d } else w.row x :=
  row_withRow ht _ x

/-- What a type is made of changes in a type that mentions a redirected one. -/
theorem map_replaced_ne (hmem : old ∈ c.components) (hne : new ≠ old) :
    c.map (replaced old new) ≠ c := by
  intro heq
  rw [← heq, Composite.components_map] at hmem
  obtain ⟨hx, -⟩ | ⟨-, hx⟩ := mem_map_replaced hmem
  · exact hne hx.symm
  · exact hx rfl

/-- The components of a composite type are replaced, and it is found by the new ones. -/
theorem replaces_type {stray : Option TypeId} (hc : (w.row t).shape = .composite c)
    (hv : { v with composites := w.composites } =
      w.withRow t fun e => { e with shape := .composite (c.map (replaced old new)) })
    (known : ∀ {d : Composite} {x : TypeId}, v.composites[d]? = some x ↔
      (stray ≠ some x ∧ v.IsLive x) ∧ (v.row x).shape = .composite d) :
    Replaces old new (.type t) stray w v := by
  have types := congrArg World.types hv
  have redirects := congrArg World.redirects hv
  have placeholders := congrArg World.placeholders hv
  have byBinaryName := congrArg World.byBinaryName hv
  have fields := congrArg World.fields hv
  have methods := congrArg World.methods hv
  have row (x : TypeId) : v.row x = if x = t then
      { w.row t with shape := .composite (c.map (replaced old new)) } else w.row x :=
    (congrArg (fun ts : Array TypeEntry => ts.getD x.index {}) types).trans
      (row_withRow (lt_size_of_composite hc) _ x)
  have rowOther {x : TypeId} (hx : x ≠ t) : v.row x = w.row x := (row x).trans (if_neg hx)
  exact
    { size := (congrArg Array.size types).trans (size_withRow ..)
      redirects
      placeholders
      byBinaryName
      row := fun hne => rowOther fun hx => hne (congrArg Mention.type hx)
      type := by
        rintro _ ⟨⟩
        exact ⟨c, hc, (row t).trans (if_pos rfl)⟩
      mentions := by
        rw [mentioned_type hc, mentioned_type (c := c.map (replaced old new)),
          Composite.components_map]
        rw [row, if_pos rfl]
      others := fun {n} hn => mentioned_congr fields methods fun x hx => by
        rw [rowOther]
        rintro rfl
        exact hn hx
      known }

/-- A composite type with new components is found by them unless another one is. -/
theorem replaces_new (a : w₀.Amid p r none ((old, .type t) :: todo) w)
    (hc : (w.row t).shape = .composite c) (hnone : w.composites[c.map (replaced old new)]? = none) :
    Replaces old new (.type t) none w { w.reshaping t c (c.map (replaced old new)) with
      composites := (w.composites.erase c).insert (c.map (replaced old new)) t } := by
  have hlive := (a.todo_type List.mem_cons_self).1
  have htc := a.known.mpr ⟨⟨nofun, hlive⟩, hc⟩
  refine replaces_type hc rfl fun {d x} => ?_
  have hrow := row_reshaping (lt_size_of_composite hc) c (c.map (replaced old new)) x
  change ((w.composites.erase c).insert (c.map (replaced old new)) t)[d]? = some x ↔
    (_ ∧ w.IsLive x) ∧ ((w.reshaping t c (c.map (replaced old new))).row x).shape = _
  rw [Std.HashMap.getElem?_insert, Std.HashMap.getElem?_erase, hrow]
  have hknown := a.known (c := d) (t := x)
  by_cases hx : x = t
  · subst hx
    by_cases hd : c.map (replaced old new) = d
    · simp [hd, hlive]
    · by_cases hcd : c = d
      · subst hcd
        simp [hd]
      · rw [hc] at hknown
        simpa [hd, hcd] using hknown
  · by_cases hd : c.map (replaced old new) = d
    · subst hd
      rw [hnone] at hknown
      simpa [hx, Ne.symm hx] using hknown
    · by_cases hcd : c = d
      · subst hcd
        rw [htc] at hknown
        simpa [hd, hx, Ne.symm hx] using hknown
      · simpa [hd, hcd, hx] using hknown

/-- A composite type with the components of another one is stray. -/
theorem replaces_twin (a : w₀.Amid p r none ((old, .type t) :: todo) w)
    (hc : (w.row t).shape = .composite c) :
    Replaces old new (.type t) (some t) w (w.reshaping t c (c.map (replaced old new))) := by
  have hlive := (a.todo_type List.mem_cons_self).1
  have htc := a.known.mpr ⟨⟨nofun, hlive⟩, hc⟩
  refine replaces_type hc rfl fun {d x} => ?_
  have hrow := row_reshaping (lt_size_of_composite hc) c (c.map (replaced old new)) x
  change (w.composites.erase c)[d]? = some x ↔ (_ ∧ w.IsLive x) ∧ _
  rw [Std.HashMap.getElem?_erase, hrow]
  have hknown := a.known (c := d) (t := x)
  by_cases hx : x = t
  · subst hx
    by_cases hcd : c = d
    · simp [hcd]
    · rw [hc] at hknown
      simpa [hcd] using hknown
  · by_cases hcd : c = d
    · subst hcd
      rw [htc] at hknown
      simpa [hx, Ne.symm hx] using hknown
    · simpa [hcd, hx, Ne.symm hx] using hknown

theorem replaces_field {f : FieldId} {e : FieldEntry → FieldEntry}
    (a : w₀.Amid p r none ((old, .field f) :: todo) w) (hnone : old ≠ .none)
    (he : ∀ x, (e x).type = replaced old new x.type) :
    Replaces old new (.field f) none w { w with fields := w.fields.modify f.index e } where
  size := rfl
  redirects := rfl
  placeholders := rfl
  byBinaryName := rfl
  row _ := rfl
  type := nofun
  mentions := by
    have hdefault : replaced old new .none = .none := if_neg (by simpa using hnone.symm)
    simp only [mentioned, List.map_cons, List.map_nil, Array.getD_eq_getD_getElem?,
      Array.getElem?_modify, if_true]
    cases w.fields[f.index]? with
    | none => simp [hdefault]
    | some x => simp [he]
  others {n} hn := by
    cases n with
    | field g =>
      have hgf : ¬ f.index = g.index := fun h => hn (by
        cases f
        cases g
        cases h
        rfl)
      simp only [mentioned, Array.getD_eq_getD_getElem?, Array.getElem?_modify, if_neg hgf]
    | _ => rfl
  known := a.known

theorem replaces_method {f : MethodId} {e : MethodEntry → MethodEntry}
    (a : w₀.Amid p r none ((old, .method f) :: todo) w) (hnone : old ≠ .none)
    (hresult : ∀ x, (e x).result = replaced old new x.result)
    (hparams : ∀ x, (e x).params = x.params.map (replaced old new))
    (hthrows : ∀ x, (e x).throws = x.throws.map (replaced old new)) :
    Replaces old new (.method f) none w { w with methods := w.methods.modify f.index e } where
  size := rfl
  redirects := rfl
  placeholders := rfl
  byBinaryName := rfl
  row _ := rfl
  type := nofun
  mentions := by
    have hdefault : replaced old new .none = .none := if_neg (by simpa using hnone.symm)
    simp only [mentioned, List.map_cons, Array.getD_eq_getD_getElem?, List.map_append,
      Array.getElem?_modify, if_true]
    cases w.methods[f.index]? with
    | none => simp [hdefault]
    | some x => simp [hresult, hparams, hthrows]
  others {n} hn := by
    cases n with
    | method g =>
      have hgf : ¬ f.index = g.index := fun h => hn (by
        cases f
        cases g
        cases h
        rfl)
      simp only [mentioned, Array.getD_eq_getD_getElem?, Array.getElem?_modify, if_neg hgf]
    | _ => rfl
  known := a.known

/-- Where no element of an array is an array, nothing is flattened. -/
theorem flattened_run (a : w₀.Amid p r none ((old, .type t) :: todo) w) (h : w₀.Turns p r)
    (hnew : w.redirects[old]? = some new) (hc : (w.row t).shape = .composite c) :
    Lookup.flattened (c.map (replaced old new)) w = .ok (c.map (replaced old new)) w := by
  cases c with
  | array e n =>
    have hold := (a.todo_waits List.mem_cons_self).1
    have hflat := a.flat_replaced h hold hnew (a.flat hc)
    -- The element is the new type, or it is in use or still to be replaced itself.
    have hfollow : (w.row (w.follow (replaced old new e))).shape.isArray = false := by
      cases hx : w.redirects[replaced old new e]? with
      | none => rwa [follow_live hx]
      | some u =>
        have hwaits : w₀.Waits (replaced old new e) := by
          have hmem : replaced old new e ∈ (w.mentioned (.type t)).map (replaced old new) :=
            List.mem_map_of_mem ((mentioned_type hc).symm ▸ List.mem_singleton_self e)
          obtain ⟨hxnew, -⟩ | ⟨hmem, -⟩ := mem_map_replaced hmem
          · rw [hxnew] at hx
            cases (a.target hold hnew).symm.trans hx
          · have hlive : w.InUse (.type t) := (a.todo_type List.mem_cons_self).1
            rcases a.live hlive hmem with hlive | hmem
            · cases hlive.symm.trans hx
            · exact (a.todo_waits hmem).1
        rw [follow_redirected hx (a.target hwaits hx)]
        have := a.flat_replaced (e := replaced old new e) h hwaits hx hflat
        rwa [replaced, if_pos (beq_self_eq_true _)] at this
    refine (bind_run (Lookup.rawShape_run (replaced old new e) w)).trans ?_
    cases hs : (w.row (w.follow (replaced old new e))).shape with
    | composite d =>
      rw [hs] at hfollow
      cases d with
      | array => cases hfollow
      | _ => rfl
    | _ => rfl
  | _ => rfl

end Amid

/-- The number of composite types that are not redirected. -/
def unmerged (w₀ w : World) : Nat :=
  ((Finset.range w₀.types.size).filter fun i =>
    (w₀.row ⟨i⟩).shape.composite?.isSome = true ∧ w.redirects[(⟨i⟩ : TypeId)]? = none).card

/-- Redirections are never taken back. -/
def Redirects (w v : World) : Prop :=
  ∀ {x u : TypeId}, w.redirects[x]? = some u → v.redirects[x]? = some u

theorem Redirects.unmerged_le (h : w.Redirects v) (w₀ : World) :
    unmerged w₀ v ≤ unmerged w₀ w := by
  refine Finset.card_le_card fun i hi => ?_
  simp only [Finset.mem_filter] at hi ⊢
  refine ⟨hi.1, hi.2.1, ?_⟩
  cases hu : w.redirects[(⟨i⟩ : TypeId)]? with
  | none => rfl
  | some u => cases (h hu).symm.trans hi.2.2

theorem Redirects.unmerged_lt (h : w.Redirects v) (hc : (w₀.row t).shape = .composite c)
    (hlive : w.IsLive t) (hnot : ¬ v.IsLive t) : unmerged w₀ v < unmerged w₀ w := by
  refine Finset.card_lt_card ⟨fun i hi => ?_, fun hsub => ?_⟩
  · simp only [Finset.mem_filter] at hi ⊢
    refine ⟨hi.1, hi.2.1, ?_⟩
    cases hu : w.redirects[(⟨i⟩ : TypeId)]? with
    | none => rfl
    | some u => cases (h hu).symm.trans hi.2.2
  · have hmem : t.index ∈ (Finset.range w₀.types.size).filter fun i =>
        (w₀.row ⟨i⟩).shape.composite?.isSome = true ∧ w.redirects[(⟨i⟩ : TypeId)]? = none :=
      Finset.mem_filter.mpr ⟨Finset.mem_range.mpr (lt_size_of_composite hc), by
        change (w₀.row t).shape.composite?.isSome = true
        rw [hc]
        rfl, hlive⟩
    exact hnot (Finset.mem_filter.mp (hsub hmem)).2.2

/-- A loop whose rounds each do one thing on a list of things to do. -/
theorem forIn_keeps {ε σ α : Type} {xs : List α} {f : α → PUnit → EStateM ε σ (ForInStep PUnit)}
    (P : List α → σ → Prop) {s : σ} (h : P xs s) (hf : ∀ (x : α) (xs : List α) (s : σ),
      P (x :: xs) s → ∃ s' : σ, f x ⟨⟩ s = .ok (.yield ⟨⟩) s' ∧ P xs s') :
    ∃ s' : σ, (forIn xs PUnit.unit f >>= fun _ => pure PUnit.unit) s = .ok ⟨⟩ s' ∧ P [] s' := by
  induction xs generalizing s with
  | nil => exact ⟨s, rfl, h⟩
  | cons x xs ih =>
    obtain ⟨s₁, hrun, h₁⟩ := hf x xs s h
    obtain ⟨s₂, hrest, h₂⟩ := ih h₁
    refine ⟨s₂, ?_, h₂⟩
    rw [List.forIn_cons, bind_assoc, bind_run hrun]
    exact hrest

theorem Turns.ne_none (h : w₀.Turns p r) (ht : w₀.Waits t) : t ≠ .none := by
  rintro rfl
  rcases ht with hs | ⟨hs, -, -⟩ <;> rw [h.canonical.absent] at hs <;> cases hs

/-- All that mentions a redirected type is updated, and nothing is left to be replaced. -/
theorem replaceMentions_run (h : w₀.Turns p r) (n : Nat) {todo : List (TypeId × Mention)}
    (a : w₀.Amid p r none ((w.row old).mentions.map (old, ·) ++ todo) w) (hold : w₀.Waits old)
    (hnew : w.redirects[old]? = some new) (hn : unmerged w₀ w < n) :
    ∃ w', Lookup.replaceMentions old new n w = .ok () w' ∧ w₀.Amid p r none todo w' ∧
      w.Redirects w' := by
  induction n generalizing old new w todo with
  | zero => exact absurd hn (Nat.not_lt_zero _)
  | succ n ih =>
    have hnotLive : ¬ w.IsLive old := fun hlive => nomatch hlive.symm.trans hnew
    rw [Lookup.replaceMentions, bind_run (Lookup.entry_run old w)]
    dsimp only
    rw [bind_run (show Lookup.modifyEntry old (fun e => { e with mentions := [] }) w =
      .ok () (w.withRow old fun e => { e with mentions := [] }) from rfl)]
    refine forIn_keeps (fun ms v => w₀.Amid p r none (ms.map (old, ·) ++ todo) v ∧ w.Redirects v)
      ⟨a.clear hold hnotLive, id⟩ ?_
    rintro m ms v ⟨hv, hmono⟩
    have hvNew := hmono hnew
    cases m with
    | field f =>
      exact ⟨_, rfl, hv.replace h hvNew (hv.replaces_field (h.ne_none hold) fun _ => rfl), hmono⟩
    | method f =>
      exact ⟨_, rfl, hv.replace h hvNew (hv.replaces_method (h.ne_none hold) (fun _ => rfl)
        (fun _ => rfl) fun _ => rfl), hmono⟩
    | type t =>
      obtain ⟨hlive, hmem⟩ := hv.todo_type List.mem_cons_self
      obtain ⟨c, hc, hcold⟩ := mem_mentioned_type.mp hmem
      have hne := Amid.map_replaced_ne hcold (hv.target_ne hold hvNew)
      have hknown := hv.known.mpr ⟨⟨nofun, hlive⟩, hc⟩
      dsimp only
      rw [show (fun t => if (t == old) = true then new else t) = replaced old new from rfl,
        bind_run (Lookup.entry_run t v)]
      simp only [hc]
      rw [bind_run (hv.flattened_run h hvNew hc),
        bind_run (show Lookup.modifyShape t (fun _ => .composite (c.map (replaced old new))) v =
          .ok () (v.withRow t fun e => { e with shape := .composite (c.map (replaced old new)) })
          from rfl),
        bind_run (get_run _), if_pos (by exact beq_iff_eq.mpr hknown), bind_run (modify_run _ _),
        bind_run (get_run _)]
      have hfound : (v.composites.erase c)[c.map (replaced old new)]? =
          v.composites[c.map (replaced old new)]? := by
        rw [Std.HashMap.getElem?_erase, if_neg (by simpa using hne.symm)]
      simp only [withRow_composites, hfound]
      cases hu : v.composites[c.map (replaced old new)]? with
      | none => exact ⟨_, rfl, hv.replace h hvNew (hv.replaces_new hc hu), hmono⟩
      | some u =>
        have ht := hv.waits_of_mentioned hmem hold
        obtain ⟨⟨-, huLive⟩, huShape⟩ := hv.known.mp hu
        have hut : u ≠ t := by
          rintro rfl
          exact hne (Shape.composite.inj (huShape.symm.trans hc))
        have htp : t ≠ p := by
          rintro rfl
          exact hv.redirected hlive
        obtain ⟨c₀, hc₀, -⟩ := hv.composite_before htp hc
        have htwin := hv.replace h hvNew (hv.replaces_twin hc)
        have hredirected := htwin.redirectStray h ht hlive
          (by rw [Amid.row_reshaping (lt_size_of_composite hc), if_pos rfl]) (hfound.trans hu)
        set v₁ := v.reshaping t c (c.map (replaced old new)) with hv₁
        have hnow : (v₁.redirecting t u).redirects[t]? = some u := Std.HashMap.getElem?_insert_self
        have hmono₁ : v.Redirects (v₁.redirecting t u) := by
          intro x y hxy
          change (v.redirects.insert t u)[x]? = some y
          rw [Std.HashMap.getElem?_insert, if_neg]
          · exact hxy
          · intro htx
            cases hxy.symm.trans (beq_iff_eq.mp htx ▸ hlive)
        have hless := hmono₁.unmerged_lt hc₀ hlive fun hlive => nomatch hlive.symm.trans hnow
        have hfuel : unmerged w₀ (v₁.redirecting t u) < n := by
          have := hmono.unmerged_le w₀
          omega
        obtain ⟨w', hrun, ha, hmono₂⟩ := ih hredirected ht hnow hfuel
        refine ⟨w', ?_, ha, fun hxy => hmono₂ (hmono₁ (hmono hxy))⟩
        have hfollow : v₁.follow u = u := follow_live huLive
        refine (bind_run (Lookup.follow_run u v₁)).trans ?_
        rw [hfollow, if_pos (by simpa using hut), bind_run (modify_run _ _)]
        exact bind_run hrun

end World

end Javelin
