import Javelin.Proofs.Types.Questions

/-!
# Runs of the questions about the table of types

A look at the table of types changes nothing. To make a composite type that is not known yet is to
add a row, and to note it at the components that wait for a placeholder (`intern_run`).
-/

namespace Javelin

open Run

theorem TypeId.eq_of_index {t u : TypeId} (h : t.index = u.index) : t = u := by
  cases t
  cases u
  cases h
  rfl

/-- Whether a type is a placeholder that was not looked up. -/
def Shape.isWaiting : Shape → Bool
  | unresolved _ isResolved => !isResolved
  | _ => false

namespace World

/-- The row of a type as it stands. -/
def row (w : World) (t : TypeId) : TypeEntry := w.types.getD t.index {}

/-- The world after a change of one row. -/
def withRow (w : World) (t : TypeId) (f : TypeEntry → TypeEntry) : World :=
  { w with types := w.types.modify t.index f }

/-- The end of the redirections from a type. -/
def follow (w : World) (t : TypeId) : TypeId :=
  Lookup.followIn w.redirects w.redirects.size t

/-- Whether a type is a placeholder or was made of one. -/
def pending (w : World) (t : TypeId) : Bool :=
  (w.row (w.follow t)).isPending || (w.row (w.follow t)).shape.isWaiting

/-- The world in which something is noted at a type. -/
def noting? (w : World) (t : TypeId) (m : Mention) : World :=
  w.withRow (w.follow t) fun e =>
    if e.mentions.contains m then e else { e with mentions := e.mentions ++ [m] }

/-- The number of the next type. -/
def nextType (w : World) : TypeId := ⟨w.types.size⟩

/-- The world with one more type. -/
def adding (w : World) (s : Shape) : World := { w with types := w.types.push { shape := s } }

/-- A composite type becomes pending with one of its components. -/
def awaiting (t : TypeId) (w : World) (part : TypeId) : World :=
  if w.pending part then
    (w.withRow t fun e => { e with isPending := true }).noting? part (.type t)
  else w

/-- The world in which a new composite type is made. -/
def interned (w : World) (c : Composite) : World :=
  c.components.foldl (awaiting w.nextType)
    { w.adding (.composite c) with composites := w.composites.insert c w.nextType }

@[simp] theorem size_withRow (w : World) (t : TypeId) (f : TypeEntry → TypeEntry) :
    (w.withRow t f).types.size = w.types.size := Array.size_modify ..

end World

namespace Lookup

open World

variable {w : World} {t : TypeId}

theorem entry_run (t : TypeId) (w : World) : entry t w = .ok (w.row t) w := rfl

theorem follow_run (t : TypeId) (w : World) : follow t w = .ok (w.follow t) w := rfl

theorem rawShape_run (t : TypeId) (w : World) :
    rawShape t w = .ok (w.row (w.follow t)).shape w := rfl

theorem isPending_run (t : TypeId) (w : World) : isPending t w = .ok (w.pending t) w := by
  change EStateM.Result.ok (_ || _) w = _
  congr 2

theorem addMention_run (t : TypeId) (m : Mention) (w : World) :
    addMention t m w = .ok () (w.noting? t m) := rfl

theorem mapM_follow_run (ts : List TypeId) (w : World) :
    ts.mapM follow w = .ok (ts.map w.follow) w := by
  induction ts with
  | nil => rfl
  | cons t ts ih =>
    rw [List.mapM_cons, bind_run (follow_run t w), bind_run ih]
    rfl

/-- A loop whose rounds always succeed folds them over the state. -/
theorem forIn_run {ε σ α : Type} (xs : List α) {f : α → PUnit → EStateM ε σ (ForInStep PUnit)}
    {g : σ → α → σ} (hf : ∀ a s, f a ⟨⟩ s = .ok (.yield ⟨⟩) (g s a)) (s : σ) :
    forIn xs PUnit.unit f s = .ok ⟨⟩ (xs.foldl g s) := by
  induction xs generalizing s with
  | nil => rfl
  | cons x xs ih =>
    rw [List.forIn_cons, bind_run (hf x s)]
    exact ih (g s x)

theorem intern_known {c : Composite} (h : w.composites[c]? = some t) :
    intern c w = .ok (w.follow t) w := by
  unfold intern
  rw [bind_run (get_run w)]
  simp only [h]
  rfl

theorem intern_new {c : Composite} (h : w.composites[c]? = none) :
    intern c w = .ok w.nextType (w.interned c) := by
  unfold intern
  rw [bind_run (get_run w)]
  simp only [h]
  have hloop := forIn_run c.components (g := awaiting w.nextType)
    (f := fun part r => do
      if ← isPending part then
        modifyEntry w.nextType fun e => { e with isPending := true }
        addMention part (.type w.nextType)
      return .yield ⟨⟩)
    (fun part v => by
      rw [bind_run (isPending_run part v)]
      unfold awaiting
      split <;> rfl)
    { w.adding (.composite c) with composites := w.composites.insert c w.nextType }
  exact bind_run hloop

end Lookup

end Javelin

/-!
# Canonical types

Types are compared by number, so of two numbers of the same type one must be redirected to the
other. Composite types are kept by their components; what mentions a placeholder is noted at it, so
that it can be updated when the placeholder is redirected.

1. `World.Waits`, the types that mention a placeholder, and `World.Same`, the types that are the
   same whatever their numbers.
2. `World.Canonical`, what the tables keep between operations, and `World.Canonical.follow_eq`:
   types that are the same have one number.
3. `World.Grows`, what a step does that adds a type or a member and notes what it mentions. It keeps
   the tables canonical.
-/

namespace Javelin

open Run

namespace Composite

variable {c d : Composite} {f g : TypeId → TypeId}

theorem components_map (f : TypeId → TypeId) (c : Composite) :
    (c.map f).components = c.components.map f := by
  cases c <;> rfl

theorem map_map (f g : TypeId → TypeId) (c : Composite) : (c.map f).map g = c.map (g ∘ f) := by
  cases c <;> simp [map]

/-- A composite type without its components. -/
def skeleton (c : Composite) : Composite := c.map fun _ => .none

theorem skeleton_map (f : TypeId → TypeId) (c : Composite) : (c.map f).skeleton = c.skeleton :=
  map_map ..

/-- A composite type is determined by its components. -/
theorem eq_of_components (h : c.skeleton = d.skeleton) (hparts : c.components = d.components) :
    c = d := by
  cases c <;> cases d <;> simp_all [skeleton, map, components]

end Composite

namespace World

/-! ## Types that wait and types that are the same -/

/-- Whether a type is not redirected. -/
def IsLive (w : World) (t : TypeId) : Prop := w.redirects[t]? = none

/-- A placeholder that was not looked up, or a composite type that mentions one. -/
inductive Waits (w : World) : TypeId → Prop
  | placeholder {t : TypeId} (h : (w.row t).shape.isWaiting = true) : Waits w t
  | part {t x : TypeId} {c : Composite} (h : (w.row t).shape = .composite c)
    (hx : x ∈ c.components) (hwaits : Waits w x) : Waits w t

/-- Types are the same if they have one number, or the same name that was not looked up, or are made
of the same types in the same way. -/
inductive Same (w : World) : TypeId → TypeId → Prop
  | number {t u : TypeId} (h : w.follow t = w.follow u) : Same w t u
  | placeholder {t u : TypeId} {ps qs : List Text} {b d : Bool}
    (ht : (w.row (w.follow t)).shape = .unresolved ps b)
    (hu : (w.row (w.follow u)).shape = .unresolved qs d)
    (h : Lookup.internalName ps = Lookup.internalName qs) : Same w t u
  | composite {t u : TypeId} {c d : Composite} (ht : (w.row (w.follow t)).shape = .composite c)
    (hu : (w.row (w.follow u)).shape = .composite d) (h : c.skeleton = d.skeleton)
    (hparts : ∀ i, Same w (c.components.getD i .none) (d.components.getD i .none)) : Same w t u

/-- The types that something mentions as its components or as the types of a member. -/
def mentioned (w : World) : Mention → List TypeId
  | .type t => ((w.row t).shape.composite?.map Composite.components).getD []
  | .field f => [(w.fields.getD f.index {}).type]
  | .method m =>
    let e := w.methods.getD m.index {}
    e.result :: e.params ++ e.throws

/-- Whether something is in use; types that are redirected are not. -/
def InUse (w : World) : Mention → Prop
  | .type t => w.IsLive t
  | _ => True

/-! ## Canonical tables -/

/-- What the tables of types keep between operations. -/
structure Canonical (w : World) : Prop where
  absent : (w.row .none).shape = .absent
  /-- The composite types in use are exactly those that are found by their components. -/
  known : ∀ {c : Composite} {t : TypeId},
    w.composites[c]? = some t ↔ w.IsLive t ∧ (w.row t).shape = .composite c
  /-- Redirections end after one step, at types that mention no placeholder. -/
  ends : ∀ {t u : TypeId}, w.redirects[t]? = some u → w.IsLive u ∧ ¬ w.Waits u
  waiting : ∀ {t : TypeId}, w.Waits t → w.IsLive t
  /-- Nothing mentions a type that is redirected. -/
  live : ∀ {m : Mention} {x : TypeId}, w.InUse m → x ∈ w.mentioned m → w.IsLive x
  inside : ∀ {m : Mention} {x : TypeId}, x ∈ w.mentioned m → x.index < w.types.size
  /-- What mentions a type that waits is noted there. -/
  noted : ∀ {m : Mention} {x : TypeId},
    w.InUse m → x ∈ w.mentioned m → w.Waits x → m ∈ (w.row x).mentions
  mention : ∀ {t x : TypeId}, .type t ∈ (w.row x).mentions →
    x.index < t.index ∧ (w.Waits x → w.IsLive t ∧ x ∈ w.mentioned (.type t))
  once : ∀ x : TypeId, (w.row x).mentions.Nodup
  /-- Types that wait are marked. -/
  marked : ∀ {t : TypeId}, w.Waits t →
    (w.row t).isPending = true ∨ (w.row t).shape.isWaiting = true
  flat : ∀ {t e : TypeId} {n : Nat},
    (w.row t).shape = .composite (.array e n) → (w.row e).shape.isArray = false
  /-- There is one placeholder for each name. -/
  placeholder : ∀ {t : TypeId} {ps : List Text} {b : Bool},
    (w.row t).shape = .unresolved ps b → w.placeholders[Lookup.internalName ps]? = some t
  /-- Placeholders that were looked up are redirected. -/
  resolved : ∀ {t : TypeId} {ps : List Text},
    (w.row t).shape = .unresolved ps true → ¬ w.IsLive t
  declared : ∀ {t : TypeId}, (w.row t).shape.isDeclared = true → w.IsLive t
  named : ∀ {name : Text} {t : TypeId},
    w.byBinaryName[name]? = some t → (w.row t).shape.isDeclared = true
  redirected : ∀ {t u : TypeId},
    w.redirects[t]? = some u → t.index < w.types.size ∧ u.index < w.types.size

variable {w v : World} {t u x : TypeId} {c : Composite}

theorem mentioned_type (h : (w.row t).shape = .composite c) :
    w.mentioned (.type t) = c.components := by
  rw [mentioned, h]
  rfl

theorem mem_mentioned_type :
    x ∈ w.mentioned (.type t) ↔ ∃ c, (w.row t).shape = .composite c ∧ x ∈ c.components := by
  cases h : (w.row t).shape <;> simp [mentioned, h, Shape.composite?]

theorem row_outside (h : w.types.size ≤ t.index) : w.row t = {} := by
  rw [row, Array.getD_eq_getD_getElem?, Array.getElem?_eq_none h]
  rfl

/-- A type that is not known has no shape. -/
theorem lt_size_of_shape (h : (w.row t).shape.isAbsent = false) : t.index < w.types.size := by
  refine Nat.lt_of_not_le fun hge => ?_
  rw [row_outside hge] at h
  cases h

theorem lt_size_of_composite (h : (w.row t).shape = .composite c) : t.index < w.types.size :=
  lt_size_of_shape (by rw [h]; rfl)

theorem Waits.lt_size (h : w.Waits t) : t.index < w.types.size := by
  cases h with
  | placeholder h =>
    apply lt_size_of_shape
    revert h
    cases (w.row t).shape <;> simp [Shape.isWaiting, Shape.isAbsent]
  | part h => exact lt_size_of_composite h

theorem not_waits_of_declared (h : (w.row t).shape.isDeclared = true) : ¬ w.Waits t := by
  rintro (h' | ⟨h', -, -⟩)
  · revert h h'
    cases (w.row t).shape <;> simp [Shape.isWaiting, Shape.isDeclared, Shape.declared?]
  · rw [h'] at h
    cases h

/-! ### Following -/

theorem follow_live (h : w.IsLive t) : w.follow t = t := by
  unfold follow
  cases w.redirects.size with
  | zero => rfl
  | succ n => rw [Lookup.followIn, h]

theorem follow_redirected (h : w.redirects[t]? = some u) (hu : w.IsLive u) : w.follow t = u := by
  have hsize : w.redirects.size ≠ 0 := by
    intro h0
    have hempty : w.redirects.isEmpty := by simp [Std.HashMap.isEmpty_eq_size_eq_zero, h0]
    rw [Std.HashMap.getElem?_of_isEmpty hempty] at h
    cases h
  unfold follow
  obtain ⟨n, hn⟩ := Nat.exists_eq_succ_of_ne_zero hsize
  rw [hn, Lookup.followIn, h]
  cases n with
  | zero => rfl
  | succ n =>
    change Lookup.followIn w.redirects (n + 1) u = u
    rw [Lookup.followIn, hu]

theorem Canonical.live_follow (h : w.Canonical) (t : TypeId) : w.IsLive (w.follow t) := by
  cases ht : w.redirects[t]? with
  | none => rwa [follow_live ht]
  | some u =>
    have hu := (h.ends ht).1
    rwa [follow_redirected ht hu]

theorem Canonical.follow_lt (h : w.Canonical) (ht : t.index < w.types.size) :
    (w.follow t).index < w.types.size := by
  cases hr : w.redirects[t]? with
  | none => rwa [follow_live hr]
  | some u =>
    rw [follow_redirected hr (h.ends hr).1]
    exact (h.redirected hr).2

/-- The absent type is a member's type until another one is known. -/
theorem Canonical.none_usable (h : w.Canonical) :
    w.IsLive .none ∧ TypeId.none.index < w.types.size := by
  have hmem : TypeId.none ∈ w.mentioned (.field ⟨w.fields.size⟩) := by simp [mentioned]
  exact ⟨h.live (m := .field ⟨w.fields.size⟩) trivial hmem, h.inside hmem⟩

/-- Types that are the same have one number. -/
theorem Canonical.follow_eq (h : w.Canonical) (hsame : w.Same t u) : w.follow t = w.follow u := by
  induction hsame with
  | number h => exact h
  | placeholder ht hu hname =>
    have := h.placeholder ht
    rw [hname, h.placeholder hu] at this
    exact (Option.some.inj this).symm
  | @composite t u c d ht hu hskeleton hparts ih =>
    have hlive {t : TypeId} {c : Composite} (ht : (w.row (w.follow t)).shape = .composite c) :
        ∀ x ∈ c.components, w.follow x = x := fun x hx =>
      follow_live <| h.live (m := .type (w.follow t)) (h.live_follow t)
        ((mentioned_type ht).symm ▸ hx)
    have hlength : c.components.length = d.components.length := by
      have := congrArg (fun c => c.components.length) hskeleton
      simpa [Composite.skeleton, Composite.components_map] using this
    have hcomponents : c.components = d.components := by
      refine List.ext_getElem hlength fun i hi hi' => ?_
      have hi_eq := ih i
      simp only [List.getD_eq_getElem?_getD, List.getElem?_eq_getElem, hi, hi',
        Option.getD_some] at hi_eq
      rwa [hlive ht _ (List.getElem_mem hi), hlive hu _ (List.getElem_mem hi')] at hi_eq
    obtain rfl := Composite.eq_of_components hskeleton hcomponents
    have ht := h.known.mpr ⟨h.live_follow t, ht⟩
    have hu := h.known.mpr ⟨h.live_follow u, hu⟩
    exact Option.some.inj (ht.symm.trans hu)

/-! ## Tables that grow -/

/-- A step that adds at most one row and notes one thing at the types that it mentions. -/
structure Grows (w v : World) (m : Mention) (ts : List TypeId) : Prop where
  size : w.types.size ≤ v.types.size
  shape : ∀ {x : TypeId}, x.index < w.types.size → (v.row x).shape = (w.row x).shape
  redirects : v.redirects = w.redirects
  isNew : ∀ {t : TypeId}, m = .type t → w.types.size ≤ t.index
  mentions : v.mentioned m = ts
  others : ∀ {n : Mention}, n ≠ m → v.mentioned n = w.mentioned n
  live : ∀ {x : TypeId}, x ∈ ts → w.IsLive x
  inside : ∀ {x : TypeId}, x ∈ ts → x.index < w.types.size
  kept : ∀ {x : TypeId} {n : Mention}, n ∈ (w.row x).mentions → n ∈ (v.row x).mentions
  added : ∀ {x : TypeId} {n : Mention},
    n ∈ (v.row x).mentions → n ∈ (w.row x).mentions ∨ n = m ∧ x ∈ ts
  noted : ∀ {x : TypeId}, x ∈ ts → w.pending x = true → m ∈ (v.row x).mentions
  once : ∀ {x : TypeId}, (w.row x).mentions.Nodup → (v.row x).mentions.Nodup
  known : ∀ {c : Composite} {t : TypeId}, (w.composites[c]? = some t ↔
      w.IsLive t ∧ (w.row t).shape = .composite c) →
    (v.composites[c]? = some t ↔ v.IsLive t ∧ (v.row t).shape = .composite c)
  marked : ∀ {x : TypeId}, (w.row x).isPending = true → (v.row x).isPending = true
  markedNew : ∀ {t : TypeId}, w.types.size ≤ t.index → (v.row t).shape.isWaiting = true ∨
    ∀ x ∈ v.mentioned (.type t), w.pending x = true → (v.row t).isPending = true
  flat : ∀ {t e : TypeId} {n : Nat}, w.types.size ≤ t.index →
    (v.row t).shape = .composite (.array e n) → (w.row e).shape.isArray = false
  placeholders : ∀ {name : Text} {t : TypeId},
    w.placeholders[name]? = some t → v.placeholders[name]? = some t
  placeholder : ∀ {t : TypeId} {ps : List Text} {b : Bool}, w.types.size ≤ t.index →
    (v.row t).shape = .unresolved ps b →
      v.placeholders[Lookup.internalName ps]? = some t ∧ b = false
  named : ∀ {name : Text} {t : TypeId}, v.byBinaryName[name]? = some t →
    w.byBinaryName[name]? = some t ∨ (v.row t).shape.isDeclared = true

namespace Grows

variable {m : Mention} {ts : List TypeId}

theorem isLive (g : w.Grows v m ts) : v.IsLive t ↔ w.IsLive t := by
  rw [IsLive, IsLive, g.redirects]

theorem inUse (g : w.Grows v m ts) (n : Mention) : v.InUse n ↔ w.InUse n := by
  cases n with
  | type t => exact g.isLive
  | _ => exact Iff.rfl

theorem inside_of (g : w.Grows v m ts) (h : w.Canonical) {n : Mention}
    (hx : x ∈ v.mentioned n) : x.index < w.types.size := by
  by_cases hn : n = m
  · subst hn
    exact g.inside (g.mentions ▸ hx)
  · exact h.inside (g.others hn ▸ hx)

theorem waits (g : w.Grows v m ts) (h : w.Canonical) (hx : x.index < w.types.size) :
    v.Waits x ↔ w.Waits x := by
  constructor
  · intro hw
    induction hw with
    | placeholder hs => exact .placeholder (g.shape hx ▸ hs)
    | @part t y c hs hy _ ih =>
      rw [g.shape hx] at hs
      exact .part hs hy (ih (h.inside ((mentioned_type hs).symm ▸ hy)))
  · intro hw
    induction hw with
    | placeholder hs => exact .placeholder ((g.shape hx).symm ▸ hs)
    | @part t y c hs hy _ ih =>
      exact .part ((g.shape hx).trans hs) hy (ih (h.inside ((mentioned_type hs).symm ▸ hy)))

theorem pending_of_waits (h : w.Canonical) (hx : w.Waits x) : w.pending x = true := by
  rw [pending, follow_live (h.waiting hx), Bool.or_eq_true]
  exact h.marked hx

end Grows

/-- Canonical tables stay canonical when they grow. -/
theorem Canonical.grow {m : Mention} {ts : List TypeId} (h : w.Canonical) (g : w.Grows v m ts) :
    v.Canonical where
  absent := (g.shape h.none_usable.2).trans h.absent
  known := g.known h.known
  ends {t u} ht := by
    rw [g.redirects] at ht
    have hu := h.ends ht
    exact ⟨g.isLive.mpr hu.1, fun hw => hu.2 ((g.waits h (h.redirected ht).2).mp hw)⟩
  waiting {t} hw := by
    refine g.isLive.mpr ?_
    cases ht : w.redirects[t]? with
    | none => exact ht
    | some u => exact h.waiting ((g.waits h (h.redirected ht).1).mp hw)
  live {n x} hn hx := by
    refine g.isLive.mpr ?_
    by_cases hnm : n = m
    · subst hnm
      exact g.live (g.mentions ▸ hx)
    · exact h.live ((g.inUse n).mp hn) (g.others hnm ▸ hx)
  inside hx := Nat.lt_of_lt_of_le (g.inside_of h hx) g.size
  noted {n x} hn hx hw := by
    replace hw := (g.waits h (g.inside_of h hx)).mp hw
    by_cases hnm : n = m
    · subst hnm
      exact g.noted (g.mentions ▸ hx) (Grows.pending_of_waits h hw)
    · exact g.kept (h.noted ((g.inUse n).mp hn) (g.others hnm ▸ hx) hw)
  mention {t x} ht := by
    rcases g.added ht with ht | ⟨rfl, hx⟩
    · obtain ⟨hlt, hold⟩ := h.mention ht
      refine ⟨hlt, fun hw => ?_⟩
      have hx : x.index < w.types.size := by
        refine Nat.lt_of_not_le fun hge => ?_
        rw [row_outside hge] at ht
        cases ht
      obtain ⟨hlive, hmem⟩ := hold ((g.waits h hx).mp hw)
      refine ⟨g.isLive.mpr hlive, ?_⟩
      rw [g.others]
      · exact hmem
      · intro hnew
        have hge := g.isNew hnew.symm
        obtain ⟨c, hc, -⟩ := mem_mentioned_type.mp hmem
        exact absurd (lt_size_of_composite hc) (Nat.not_lt.mpr hge)
    · refine ⟨Nat.lt_of_lt_of_le (g.inside hx) (g.isNew rfl), fun _ => ⟨?_, g.mentions.symm ▸ hx⟩⟩
      refine g.isLive.mpr ?_
      cases ht : w.redirects[t]? with
      | none => exact ht
      | some u => exact absurd (h.redirected ht).1 (Nat.not_lt.mpr (g.isNew rfl))
  once x := g.once (h.once x)
  marked {t} hw := by
    by_cases hlt : t.index < w.types.size
    · rw [g.shape hlt]
      exact (h.marked ((g.waits h hlt).mp hw)).imp_left g.marked
    · rcases g.markedNew (Nat.le_of_not_lt hlt) with hs | hs
      · exact .inr hs
      · cases hw with
        | placeholder hs => exact .inr hs
        | part hc hx hwx =>
          have hmem := (mentioned_type hc).symm ▸ hx
          have hwx := (g.waits h (g.inside_of h hmem)).mp hwx
          exact .inl (hs _ hmem (Grows.pending_of_waits h hwx))
  flat {t e n} hs := by
    have he : e.index < w.types.size :=
      g.inside_of h (n := .type t) ((mentioned_type hs).symm ▸ List.mem_singleton_self e)
    rw [g.shape he]
    by_cases hlt : t.index < w.types.size
    · exact h.flat (g.shape hlt ▸ hs)
    · exact g.flat (Nat.le_of_not_lt hlt) hs
  placeholder {t ps b} hs := by
    by_cases hlt : t.index < w.types.size
    · exact g.placeholders (h.placeholder (g.shape hlt ▸ hs))
    · exact (g.placeholder (Nat.le_of_not_lt hlt) hs).1
  resolved {t ps} hs := by
    by_cases hlt : t.index < w.types.size
    · exact fun hlive => h.resolved (g.shape hlt ▸ hs) (g.isLive.mp hlive)
    · cases (g.placeholder (Nat.le_of_not_lt hlt) hs).2
  declared {t} hs := by
    refine g.isLive.mpr ?_
    cases ht : w.redirects[t]? with
    | none => exact ht
    | some u => exact h.declared (g.shape (h.redirected ht).1 ▸ hs)
  named {name t} ht := by
    rcases g.named ht with ht | ht
    · have hs := h.named ht
      have hlt : t.index < w.types.size := lt_size_of_shape (by
        revert hs
        cases (w.row t).shape <;> simp [Shape.isDeclared, Shape.declared?, Shape.isAbsent])
      rwa [g.shape hlt]
    · exact ht
  redirected {t u} ht := by
    rw [g.redirects] at ht
    exact (h.redirected ht).imp (Nat.lt_of_lt_of_le · g.size) (Nat.lt_of_lt_of_le · g.size)

end World

end Javelin
