import Mathlib.Data.List.Nodup
import Mathlib.Data.List.Perm.Subperm
import Javelin.Proofs.Types.Resolving

/-!
# Where redirections lead

A placeholder is redirected to the type that it turns out to be, and a composite type to an equal
one. Loading a class while a placeholder is looked up makes more types and looks more placeholders
up, and what was redirected may be redirected again. Still the redirections from a type never come
back to it: they end, after at most as many steps as there are redirections, at a type that is not
redirected.

`Lookup.resolve` takes no more than eight steps. It never gives a placeholder, but it gives a type
that is not redirected only where no more than eight redirections lead there
(`World.redirections_grounded`).

1. `World.Trail`, a number of redirections on end.
2. `World.Grounded`, what is kept of the redirections: they all end, and lead from placeholders and
   composite types to composite and declared ones.
3. Replacing a type in everything that mentions it.
4. `World.Builds`, any sequence of operations.
5. What `Lookup.resolve` gives after them.
-/

namespace Javelin

open Run

/-! ## Trails -/

namespace World

variable {w v : World} {n m : Nat} {p r t u x : TypeId}

/-- A number of redirections lead from one type to another. -/
inductive Trail (w : World) : Nat → TypeId → TypeId → Prop
  | here (t : TypeId) : Trail w 0 t t
  | next {n : Nat} {t u x : TypeId} (h : w.redirects[t]? = some u) (rest : Trail w n u x) :
    Trail w (n + 1) t x

namespace Trail

/-- A trail goes on where another one of the same start stops. -/
theorem drop (h : w.Trail n t u) (h' : w.Trail m t x) (hle : m ≤ n) : w.Trail (n - m) x u := by
  induction h' generalizing n with
  | here => exact h
  | next hr _ ih =>
    cases h with
    | here => exact absurd hle (Nat.not_succ_le_zero _)
    | next hr' h =>
      obtain rfl := Option.some.inj (hr'.symm.trans hr)
      rw [Nat.add_sub_add_right]
      exact ih h (Nat.le_of_succ_le_succ hle)

theorem functional (h : w.Trail n t u) (h' : w.Trail n t x) : u = x := by
  have hrest := h'.drop h (Nat.le_refl n)
  rw [Nat.sub_self] at hrest
  cases hrest
  rfl

theorem take (h : w.Trail n t u) (hle : m ≤ n) : ∃ x, w.Trail m t x := by
  induction m generalizing n t with
  | zero => exact ⟨t, .here t⟩
  | succ m ih =>
    cases h with
    | here => exact absurd hle (Nat.not_succ_le_zero _)
    | next hr h =>
      obtain ⟨x, hx⟩ := ih h (Nat.le_of_succ_le_succ hle)
      exact ⟨x, .next hr hx⟩

theorem eq_zero (h : w.Trail n t u) (ht : w.IsLive t) : n = 0 ∧ u = t := by
  cases h with
  | here => exact ⟨rfl, rfl⟩
  | next hr => cases hr.symm.trans ht

/-- Only one number of redirections leads to a type that is not redirected. -/
theorem unique (h : w.Trail n t u) (hu : w.IsLive u) (h' : w.Trail m t x) (hx : w.IsLive x) :
    n = m ∧ u = x := by
  rcases Nat.le_total m n with hle | hle
  · obtain ⟨hn, rfl⟩ := (h.drop h' hle).eq_zero hx
    exact ⟨by omega, rfl⟩
  · obtain ⟨hn, rfl⟩ := (h'.drop h hle).eq_zero hu
    exact ⟨by omega, rfl⟩

/-- Redirections that come to an end do not come back to their start. -/
theorem irreflexive (h : w.Trail n t t) (h' : w.Trail m t u) (hu : w.IsLive u) : n = 0 := by
  induction m using Nat.strongRecOn with
  | ind m ih =>
    by_cases hle : n ≤ m
    · rcases Nat.eq_zero_or_pos n with hn | hn
      · exact hn
      · exact ih (m - n) (by omega) (h'.drop h hle)
    · have := ((h.drop h' (by omega)).eq_zero hu).1
      omega

/-- The redirected types on the way to a type that is not redirected, each of them once. -/
theorem path (h : w.Trail n t u) (hu : w.IsLive u) : ∃ path : List TypeId, path.length = n ∧
    path.Nodup ∧ ∀ x ∈ path, x ∈ w.redirects ∧ ∃ m ≤ n, 0 < m ∧ w.Trail m x u := by
  induction h with
  | here => exact ⟨[], rfl, List.nodup_nil, nofun⟩
  | @next n t y u hr rest ih =>
    obtain ⟨path, hlength, hnodup, hpath⟩ := ih hu
    refine ⟨t :: path, by rw [List.length_cons, hlength],
      List.nodup_cons.mpr ⟨fun ht => ?_, hnodup⟩, fun x hx => ?_⟩
    · obtain ⟨-, m, hle, -, hm⟩ := hpath t ht
      have := (hm.unique hu (.next hr rest) hu).1
      omega
    · rcases List.mem_cons.mp hx with rfl | hx
      · refine ⟨?_, n + 1, Nat.le_refl _, Nat.succ_pos _, .next hr rest⟩
        rw [Std.HashMap.mem_iff_isSome_getElem?, hr]
        rfl
      · obtain ⟨hmem, m, hle, hpos, hm⟩ := hpath x hx
        exact ⟨hmem, m, Nat.le_succ_of_le hle, hpos, hm⟩

theorem length_le (h : w.Trail n t u) (hu : w.IsLive u) : n ≤ w.redirects.size := by
  obtain ⟨path, rfl, hnodup, hpath⟩ := h.path hu
  rw [← Std.HashMap.length_keys]
  refine (List.subperm_of_subset hnodup fun x hx => ?_).length_le
  exact Std.HashMap.mem_keys.mpr (hpath x hx).1

theorem followIn_eq (h : w.Trail n t u) (hu : w.IsLive u) (hle : n ≤ m) :
    Lookup.followIn w.redirects m t = u := by
  induction h generalizing m with
  | here =>
    cases m with
    | zero => rfl
    | succ m => rw [Lookup.followIn, hu]
  | next hr _ ih =>
    obtain ⟨m, rfl⟩ := Nat.exists_eq_add_one_of_ne_zero (show m ≠ 0 by omega)
    rw [Lookup.followIn, hr]
    exact ih hu (Nat.le_of_succ_le_succ hle)

theorem follow_eq (h : w.Trail n t u) (hu : w.IsLive u) : w.follow t = u :=
  h.followIn_eq hu (h.length_le hu)

/-- A type that is not redirected may become the end of another one. -/
theorem redirecting (h : w.Trail n t u) (hu : w.IsLive u) (hr : w.IsLive r) (hne : r ≠ p) :
    ∃ m x, (w.redirecting p r).Trail m t x ∧ (w.redirecting p r).IsLive x := by
  have redirectsOf (x : TypeId) :
      (w.redirecting p r).redirects[x]? = if p = x then some r else w.redirects[x]? := by
    simp only [World.redirecting, Std.HashMap.getElem?_insert, beq_iff_eq]
  have hrlive : (w.redirecting p r).IsLive r := (redirectsOf r).trans ((if_neg hne.symm).trans hr)
  have hp : (w.redirecting p r).Trail 1 p r := .next ((redirectsOf p).trans (if_pos rfl)) (.here r)
  induction h with
  | here t =>
    by_cases ht : p = t
    · exact ⟨1, r, ht ▸ hp, hrlive⟩
    · exact ⟨0, t, .here t, (redirectsOf t).trans ((if_neg ht).trans hu)⟩
  | @next n t y u hy _ ih =>
    by_cases ht : p = t
    · exact ⟨1, r, ht ▸ hp, hrlive⟩
    · obtain ⟨m, x, hm, hx⟩ := ih hu
      exact ⟨m + 1, x, .next ((redirectsOf t).trans ((if_neg ht).trans hy)) hm, hx⟩

/-- To resolve a type is to go along its redirections first. -/
theorem resolveIn_eq [Answers] (h : w.Trail n t u) (k : Nat) :
    Lookup.resolveIn (n + k) t w = Lookup.resolveIn k u w := by
  induction h with
  | here => rw [Nat.zero_add]
  | @next n t y u hr _ ih =>
    rw [show n + 1 + k = n + k + 1 by omega, resolveIn_redirected hr]
    exact ih

end Trail

end World

/-! ## Grounded redirections -/

/-- What matters of a type for redirections. -/
inductive Standing where
  | composite
  | declared
  /-- A placeholder that was not looked up. -/
  | waiting
  /-- A placeholder that was looked up, or is being looked up. -/
  | opened
  | other
deriving DecidableEq

def Shape.standing : Shape → Standing
  | composite _ => .composite
  | declared _ => .declared
  | unresolved _ false => .waiting
  | unresolved _ true => .opened
  | _ => .other

/-- Composite and declared types and placeholders that were looked up stay what they are. -/
def Standing.lasts : Standing → Bool
  | composite | declared | opened => true
  | _ => false

theorem Shape.standing_map (f : TypeId → TypeId) (s : Shape) : (s.map f).standing = s.standing := by
  cases s with
  | unresolved ps b => cases b <;> rfl
  | _ => rfl

namespace World

variable {w v : World} {n : Nat} {p r t u x : TypeId} {c : Composite}

/-- How a type stands. -/
def standing (w : World) (t : TypeId) : Standing := (w.row t).shape.standing

theorem standing_outside (h : w.types.size ≤ t.index) : w.standing t = .other := by
  rw [standing, row_outside h]
  rfl

theorem isDeclared_iff : (w.row t).shape.isDeclared = true ↔ w.standing t = .declared := by
  unfold standing
  cases (w.row t).shape with
  | unresolved ps b => cases b <;> simp [Shape.isDeclared, Shape.declared?, Shape.standing]
  | _ => simp [Shape.isDeclared, Shape.declared?, Shape.standing]

/-- All redirections end. They lead from composite types and from placeholders that were looked up
to composite and declared types, which are those that are found by their components and names. -/
structure Grounded (w : World) : Prop where
  ends : ∀ t, ∃ n u, w.Trail n t u ∧ w.IsLive u
  source : ∀ {t u : TypeId}, w.redirects[t]? = some u →
    w.standing t = .composite ∨ w.standing t = .opened
  target : ∀ {t u : TypeId}, w.redirects[t]? = some u →
    w.standing u = .composite ∨ w.standing u = .declared
  found : ∀ {c : Composite} {t : TypeId}, w.composites[c]? = some t → w.standing t = .composite
  named : ∀ {name : Text} {t : TypeId}, w.byBinaryName[name]? = some t → w.standing t = .declared

theorem Grounded.trail (h : w.Grounded) (t : TypeId) :
    ∃ n, w.Trail n t (w.follow t) ∧ w.IsLive (w.follow t) := by
  obtain ⟨n, u, hn, hu⟩ := h.ends t
  exact ⟨n, by rwa [hn.follow_eq hu], by rwa [hn.follow_eq hu]⟩

theorem Grounded.standing_trail (h : w.Grounded) (hn : w.Trail n t u)
    (ht : 0 < n ∨ w.standing t = .composite ∨ w.standing t = .declared) :
    w.standing u = .composite ∨ w.standing u = .declared := by
  induction hn with
  | here => exact ht.resolve_left (Nat.lt_irrefl 0)
  | next hr _ ih => exact ih (.inr (h.target hr))

theorem Grounded.live (h : w.Grounded) (ht : w.standing t = .declared ∨ w.standing t = .waiting) :
    w.IsLive t := by
  cases hr : w.redirects[t]? with
  | none => exact hr
  | some u =>
    have hs := h.source hr
    rcases ht with ht | ht <;> rw [ht] at hs <;> rcases hs with hs | hs <;> cases hs

theorem Trail.keep (h : w.Trail n t u) (redirects : v.redirects = w.redirects) :
    v.Trail n t u := by
  induction h with
  | here => exact .here _
  | next hr _ ih => exact .next (redirects ▸ hr) ih

/-- Redirections stay grounded where none is added and the types that matter for them stay. -/
theorem Grounded.keep (h : w.Grounded) (redirects : v.redirects = w.redirects)
    (keeps : ∀ t, (w.standing t).lasts → v.standing t = w.standing t)
    (found : ∀ {c : Composite} {t : TypeId}, v.composites[c]? = some t →
      w.composites[c]? = some t ∨ v.standing t = .composite)
    (named : ∀ {name : Text} {t : TypeId}, v.byBinaryName[name]? = some t →
      w.byBinaryName[name]? = some t ∨ v.standing t = .declared) : v.Grounded where
  ends t := by
    obtain ⟨n, u, hn, hu⟩ := h.ends t
    exact ⟨n, u, hn.keep redirects, by rwa [IsLive, redirects]⟩
  source {t u} hr := by
    rw [redirects] at hr
    have hs := h.source hr
    rw [keeps t (by rcases hs with hs | hs <;> rw [hs] <;> rfl)]
    exact hs
  target {t u} hr := by
    rw [redirects] at hr
    have hs := h.target hr
    rw [keeps u (by rcases hs with hs | hs <;> rw [hs] <;> rfl)]
    exact hs
  found {c t} hc := by
    rcases found hc with hc | hs
    · have hs := h.found hc
      rw [keeps t (by rw [hs]; rfl)]
      exact hs
    · exact hs
  named {name t} hname := by
    rcases named hname with hname | hs
    · have hs := h.named hname
      rw [keeps t (by rw [hs]; rfl)]
      exact hs
    · exact hs

/-- A composite type or a placeholder is redirected to a composite or declared type in use. -/
theorem Grounded.redirecting (h : w.Grounded)
    (hp : w.standing p = .composite ∨ w.standing p = .opened)
    (hr : w.standing r = .composite ∨ w.standing r = .declared) (hlive : w.IsLive r) (hne : r ≠ p) :
    (w.redirecting p r).Grounded := by
  have redirectsOf {x y : TypeId} (hxy : (w.redirecting p r).redirects[x]? = some y) :
      p = x ∧ r = y ∨ w.redirects[x]? = some y := by
    simp only [World.redirecting, Std.HashMap.getElem?_insert, beq_iff_eq] at hxy
    split at hxy
    next hpx => exact .inl ⟨hpx, Option.some.inj hxy⟩
    next => exact .inr hxy
  refine ⟨fun t => ?_, fun {x y} hxy => ?_, fun {x y} hxy => ?_, h.found, h.named⟩
  · obtain ⟨n, u, hn, hu⟩ := h.ends t
    exact hn.redirecting hu hlive hne
  · obtain ⟨rfl, -⟩ | hxy := redirectsOf hxy
    · exact hp
    · exact h.source hxy
  · obtain ⟨-, rfl⟩ | hxy := redirectsOf hxy
    · exact hr
    · exact h.target hxy

/-- A step that redirects nothing: the types that there were stand as they did, and a new one is no
placeholder that was looked up. -/
structure Quiet (w v : World) : Prop where
  size : w.types.size ≤ v.types.size
  redirects : v.redirects = w.redirects
  standing : ∀ t, t.index < w.types.size → v.standing t = w.standing t
  fresh : ∀ t, w.types.size ≤ t.index → v.standing t ≠ .opened
  found : ∀ {c : Composite} {t : TypeId}, v.composites[c]? = some t →
    w.composites[c]? = some t ∨ v.standing t = .composite
  named : ∀ {name : Text} {t : TypeId}, v.byBinaryName[name]? = some t →
    w.byBinaryName[name]? = some t ∨ v.standing t = .declared

namespace Quiet

theorem refl (w : World) : w.Quiet w where
  size := Nat.le_refl _
  redirects := rfl
  standing _ _ := rfl
  fresh t ht := by
    rw [standing_outside ht]
    decide
  found := .inl
  named := .inl

theorem keeps (h : w.Quiet v) (t : TypeId) (ht : (w.standing t).lasts) :
    v.standing t = w.standing t := by
  refine h.standing t (Nat.lt_of_not_le fun hle => ?_)
  rw [standing_outside hle] at ht
  cases ht

theorem opened (h : w.Quiet v) (ht : v.standing t = .opened) : w.standing t = .opened := by
  rcases Nat.lt_or_ge t.index w.types.size with hlt | hge
  · rw [← h.standing t hlt]
    exact ht
  · exact absurd ht (h.fresh t hge)

theorem trans {z : World} (h : w.Quiet v) (h' : v.Quiet z) : w.Quiet z where
  size := Nat.le_trans h.size h'.size
  redirects := h'.redirects.trans h.redirects
  standing t ht := (h'.standing t (Nat.lt_of_lt_of_le ht h.size)).trans (h.standing t ht)
  fresh t ht hs := h.fresh t ht (h'.opened hs)
  found {c t} hc := by
    rcases h'.found hc with hc | hs
    · rcases h.found hc with hc | hs
      · exact .inl hc
      · exact .inr ((h'.keeps t (by rw [hs]; rfl)).trans hs)
    · exact .inr hs
  named {name t} hname := by
    rcases h'.named hname with hname | hs
    · rcases h.named hname with hname | hs
      · exact .inl hname
      · exact .inr ((h'.keeps t (by rw [hs]; rfl)).trans hs)
    · exact .inr hs

theorem isLive (h : w.Quiet v) : v.IsLive t ↔ w.IsLive t := by rw [IsLive, IsLive, h.redirects]

theorem grounded (h : w.Quiet v) (hw : w.Grounded) : v.Grounded :=
  hw.keep h.redirects h.keeps h.found h.named

/-- Where the table of types is what it was, only types of their kind are found by components and
names. -/
theorem ofTypes (types : v.types = w.types) (redirects : v.redirects = w.redirects)
    (found : ∀ {c : Composite} {t : TypeId}, v.composites[c]? = some t →
      w.composites[c]? = some t ∨ w.standing t = .composite)
    (named : ∀ {name : Text} {t : TypeId}, v.byBinaryName[name]? = some t →
      w.byBinaryName[name]? = some t ∨ w.standing t = .declared) : w.Quiet v := by
  have hstanding (t : TypeId) : v.standing t = w.standing t := by
    rw [World.standing, World.standing, row, row, types]
  refine ⟨Nat.le_of_eq (by rw [types]), redirects, fun t _ => hstanding t, fun t ht => ?_,
    fun {c t} hc => ?_, fun {name t} hname => ?_⟩
  · rw [hstanding, standing_outside ht]
    decide
  · rw [hstanding]
    exact found hc
  · rw [hstanding]
    exact named hname

theorem withRow {f : TypeEntry → TypeEntry}
    (hf : (f (w.row t)).shape.standing = (w.row t).shape.standing) : w.Quiet (w.withRow t f) := by
  have hrow (x : TypeId) (hx : x.index < w.types.size) :
      (w.withRow t f).standing x = w.standing x := by
    by_cases ht : t.index < w.types.size
    · rw [World.standing, row_withRow ht]
      split
      next h => rw [h]; exact hf
      next => rfl
    · unfold World.standing World.row World.withRow
      rw [Array.getD_eq_getD_getElem?, Array.getElem?_modify, if_neg (by omega),
        Array.getD_eq_getD_getElem?]
  refine ⟨Nat.le_of_eq (size_withRow ..).symm, rfl, hrow, fun x hx => ?_, .inl, .inl⟩
  rw [standing_outside (by rwa [size_withRow])]
  decide

theorem adding {s : Shape} (hs : s.standing ≠ .opened) : w.Quiet (w.adding s) := by
  have hrow (x : TypeId) : (w.adding s).standing x =
      if x = w.nextType then s.standing else w.standing x := by
    rw [World.standing, row_adding]
    split <;> rfl
  refine ⟨?_, rfl, fun t ht => ?_, fun t ht => ?_, .inl, .inl⟩
  · show w.types.size ≤ (w.types.push _).size
    rw [Array.size_push]
    omega
  · rw [hrow, if_neg]
    rintro rfl
    exact Nat.lt_irrefl _ ht
  · rw [hrow]
    split
    · exact hs
    · rw [standing_outside ht]
      decide

theorem interned (w : World) (c : Composite) : w.Quiet (w.interned c) := by
  have hstart : w.Quiet { w.adding (.composite c) with
      composites := w.composites.insert c w.nextType } := by
    obtain ⟨size, redirects, hstanding, fresh, -, named⟩ :=
      adding (w := w) (s := .composite c) nofun
    refine ⟨size, redirects, hstanding, fresh, fun {d t} hd => ?_, named⟩
    rw [Std.HashMap.getElem?_insert] at hd
    split at hd
    · obtain rfl := Option.some.inj hd
      right
      show ((w.adding _).row _).shape.standing = _
      rw [row_adding, if_pos rfl]
      rfl
    · exact .inl hd
  -- to note the new type somewhere changes no shape
  have hloop (xs : List TypeId) : ∀ {v : World}, w.Quiet v →
      w.Quiet (xs.foldl (awaiting w.nextType) v) := by
    induction xs with
    | nil => exact id
    | cons x xs ih =>
      intro v hv
      refine ih (hv.trans ?_)
      unfold awaiting
      split
      · refine (withRow rfl).trans (withRow ?_)
        split <;> rfl
      · exact refl v
  exact hloop _ hstart

/-- A declared type is made and found by its name. -/
theorem declaring {d : Declared} {name : Text} : w.Quiet { w.adding (.declared d) with
    byBinaryName := w.byBinaryName.insert name w.nextType } := by
  refine (adding (s := .declared d) nofun).trans (ofTypes rfl rfl .inl fun {name t} hname => ?_)
  rw [Std.HashMap.getElem?_insert] at hname
  split at hname
  · obtain rfl := Option.some.inj hname
    right
    rw [World.standing, row_adding, if_pos rfl]
    rfl
  · exact .inl hname

end Quiet

theorem intern_quiet (w : World) (c : Composite) :
    ∃ t v, Lookup.intern c w = .ok t v ∧ w.Quiet v := by
  cases h : w.composites[c]? with
  | some t => exact ⟨_, w, Lookup.intern_known h, .refl w⟩
  | none => exact ⟨_, _, Lookup.intern_new h, .interned w c⟩

/-! ## Replacing a type -/

/-- What replacing a type in all that mentions it leaves as it is: how types stand, that a type is
redirected, and where one is redirected that is not composite. -/
structure Settles (w v : World) : Prop where
  size : v.types.size = w.types.size
  standing : ∀ t, v.standing t = w.standing t
  redirected : ∀ t, v.IsLive t → w.IsLive t
  others : ∀ t, w.standing t ≠ .composite → v.redirects[t]? = w.redirects[t]?

theorem Settles.refl (w : World) : w.Settles w := ⟨rfl, fun _ => rfl, fun _ => id, fun _ _ => rfl⟩

theorem Settles.trans {z : World} (h : w.Settles v) (h' : v.Settles z) : w.Settles z where
  size := h'.size.trans h.size
  standing t := (h'.standing t).trans (h.standing t)
  redirected t ht := h.redirected t (h'.redirected t ht)
  others t ht := (h'.others t (by rwa [h.standing])).trans (h.others t ht)

theorem Quiet.settles (h : w.Quiet v) (hsize : v.types.size = w.types.size) : w.Settles v where
  size := hsize
  standing t := by
    rcases Nat.lt_or_ge t.index w.types.size with hlt | hge
    · exact h.standing t hlt
    · rw [standing_outside hge, standing_outside (hsize ▸ hge)]
  redirected _ := h.isLive.mp
  others t _ := by rw [h.redirects]

theorem Settles.redirecting (w : World) (hp : w.standing p = .composite) :
    w.Settles (w.redirecting p r) where
  size := rfl
  standing _ := rfl
  redirected t ht := by
    have h : (w.redirects.insert p r)[t]? = none := ht
    rw [Std.HashMap.getElem?_insert] at h
    split at h
    · cases h
    · exact h
  others t ht := by
    show (w.redirects.insert p r)[t]? = _
    rw [Std.HashMap.getElem?_insert, if_neg]
    intro h
    exact ht (beq_iff_eq.mp h ▸ hp)

theorem flattened_total (c : Composite) (w : World) : ∃ d, Lookup.flattened c w = .ok d w := by
  cases c with
  | array e n =>
    show ∃ d, (Lookup.rawShape e >>= _) w = .ok d w
    rw [bind_run (Lookup.rawShape_run e w)]
    cases (w.row (w.follow e)).shape with
    | composite c => cases c <;> exact ⟨_, rfl⟩
    | _ => exact ⟨_, rfl⟩
  | _ => exact ⟨_, rfl⟩

/-- A composite type is entered by its components. -/
theorem Quiet.entering (ht : w.standing t = .composite) :
    w.Quiet { w with composites := w.composites.insert c t } := by
  refine .ofTypes rfl rfl (fun {d x} hx => ?_) .inl
  rw [Std.HashMap.getElem?_insert] at hx
  split at hx
  · exact .inr (Option.some.inj hx ▸ ht)
  · exact .inl hx

theorem Quiet.erasing (c : Composite) :
    w.Quiet { w with composites := w.composites.erase c } := by
  refine .ofTypes rfl rfl (fun {d x} hx => ?_) .inl
  rw [Std.HashMap.getElem?_erase] at hx
  split at hx
  · cases hx
  · exact .inl hx

/-- The end of a round of `Lookup.replaceMentions`: a type is entered by its new components, or is
redirected to the type that has them and replaced in turn. -/
def enterOrRedirect (n : Nat) (t : TypeId) (c : Composite) : Lookup (ForInStep PUnit) := do
  match (← get).composites[c]? with
  | some known => do
    let known ← Lookup.follow known
    if known != t then
      modify fun w => { w with redirects := w.redirects.insert t known }
      Lookup.replaceMentions t known n
      pure (.yield ⟨⟩)
    else
      modify fun w => { w with composites := w.composites.insert c t }
      pure (.yield ⟨⟩)
  | none => do
    modify fun w => { w with composites := w.composites.insert c t }
    pure (.yield ⟨⟩)

theorem enterOrRedirect_grounded (replace : ∀ {w : World} (old new : TypeId), w.Grounded →
      ∃ v, Lookup.replaceMentions old new n w = .ok () v ∧ v.Grounded ∧ w.Settles v)
    (h : w.Grounded) (ht : w.standing t = .composite) :
    ∃ v, enterOrRedirect n t c w = .ok (.yield ⟨⟩) v ∧ v.Grounded ∧ w.Settles v := by
  have hentered := Quiet.entering (w := w) (c := c) ht
  have entered := And.intro (hentered.grounded h) (hentered.settles rfl)
  unfold enterOrRedirect
  rw [bind_run (get_run w)]
  cases hknown : w.composites[c]? with
  | none => exact ⟨_, rfl, entered⟩
  | some known =>
    dsimp only
    rw [bind_run (Lookup.follow_run known w)]
    split
    next hne =>
      obtain ⟨k, hk, hlive⟩ := h.trail known
      have hto := h.standing_trail hk (.inr (.inl (h.found hknown)))
      obtain ⟨v, hrun, hv, hsettles⟩ := replace t (w.follow known)
        (h.redirecting (.inl ht) hto hlive (by simpa using hne))
      exact ⟨v, bind_run hrun, hv, (Settles.redirecting w ht).trans hsettles⟩
    next => exact ⟨_, rfl, entered⟩

/-- Replacing a type in all that mentions it comes to an end and keeps redirections grounded. -/
theorem replaceMentions_grounded (n : Nat) : ∀ {w : World} (old new : TypeId), w.Grounded →
    ∃ v, Lookup.replaceMentions old new n w = .ok () v ∧ v.Grounded ∧ w.Settles v := by
  induction n with
  | zero => exact fun {w} _ _ h => ⟨w, rfl, h, .refl w⟩
  | succ n ih =>
    intro w old new h
    have hclear : w.Quiet (w.withRow old fun e => { e with mentions := [] }) := .withRow rfl
    rw [Lookup.replaceMentions, bind_run (Lookup.entry_run old w)]
    dsimp only
    rw [bind_run (show Lookup.modifyEntry old (fun e => { e with mentions := [] }) w =
      .ok () (w.withRow old fun e => { e with mentions := [] }) from rfl)]
    refine forIn_keeps (fun _ v => v.Grounded ∧ w.Settles v)
      ⟨hclear.grounded h, hclear.settles (size_withRow ..)⟩ ?_
    rintro m - v ⟨hv, hs⟩
    have quiet {z : World} (hz : v.Quiet z) (hsize : z.types.size = v.types.size) :
        z.Grounded ∧ w.Settles z := ⟨hz.grounded hv, hs.trans (hz.settles hsize)⟩
    cases m with
    | field f => exact ⟨_, rfl, quiet (.ofTypes rfl rfl .inl .inl) rfl⟩
    | method f => exact ⟨_, rfl, quiet (.ofTypes rfl rfl .inl .inl) rfl⟩
    | type t =>
      dsimp only
      rw [bind_run (Lookup.entry_run t v)]
      cases hc : (v.row t).shape with
      | composite c =>
        have ht : v.standing t = .composite := by rw [World.standing, hc]; rfl
        obtain ⟨d, hflat⟩ := flattened_total (c.map fun x => if x == old then new else x) v
        have hshape : v.Quiet (v.withRow t fun e => { e with shape := .composite d }) :=
          .withRow ht.symm
        -- The type is found by its old components no longer, if it was.
        have entered {z : World} (hz : v.Quiet z) (hsize : z.types.size = v.types.size) :
            ∃ z', enterOrRedirect n t d z = .ok (.yield ⟨⟩) z' ∧ z'.Grounded ∧ w.Settles z' := by
          obtain ⟨hzg, hzs⟩ := quiet hz hsize
          have hzt : z.standing t = .composite := (hz.keeps t (by rw [ht]; rfl)).trans ht
          obtain ⟨z', hrun, hz', hsettles⟩ := enterOrRedirect_grounded (c := d) ih hzg hzt
          exact ⟨z', hrun, hz', hzs.trans hsettles⟩
        dsimp only
        rw [bind_run hflat,
          bind_run (show Lookup.modifyShape t (fun _ => .composite d) v =
            .ok () (v.withRow t fun e => { e with shape := .composite d }) from rfl),
          bind_run (get_run _)]
        split
        · exact entered (hshape.trans (.erasing c)) (size_withRow ..)
        · exact entered hshape (size_withRow ..)
      | _ => exact ⟨_, rfl, quiet (.withRow (Shape.standing_map ..)) (size_withRow ..)⟩

/-! ## Any sequence of operations -/

/-- One operation that redirects nothing. Types are made, or changed in place. Members and all else
that stands in other tables may change in any way, as long as what is found by its name is a
declared type. -/
inductive Change : World → World → Prop
  | array {w v : World} {elem t : TypeId} {dims : Nat} (run : Lookup.array elem dims w = .ok t v) :
    Change w v
  | parameterize {w v : World} {g outer t : TypeId} {args : List TypeId} {isDegraded : Bool}
    (run : Lookup.parameterizeAs g args outer isDegraded w = .ok t v) : Change w v
  | raw {w v : World} {g t : TypeId} (run : Lookup.rawType g w = .ok t v) : Change w v
  | wildcard {w v : World} {bound t : TypeId} {kind : WildcardKind}
    (run : Lookup.wildcard bound kind w = .ok t v) : Change w v
  | intersection {w v : World} {t : TypeId} {ts : List TypeId}
    (run : Lookup.intersection ts w = .ok t v) : Change w v
  | typeVariable {w v : World} {name : Text} {rank : Nat} {ofType t : TypeId} {ofMethod : MethodId}
    (run : Lookup.addVariable name rank ofType ofMethod w = .ok t v) : Change w v
  | captured {w v : World} {t : TypeId} {x : Variable}
    (run : Lookup.addType (.captured x) w = .ok t v) : Change w v
  | declared {w v : World} {t : TypeId} {d : Declared}
    (run : Lookup.addType (.declared d) w = .ok t v) : Change w v
  | reference {w v : World} {t : TypeId} {parts : List Text}
    (run : Lookup.reference parts w = .ok t v) : Change w v
  | missing {w v : World} {t : TypeId} {parts : List Text}
    (run : Lookup.missing parts w = .ok t v) : Change w v
  | modifyDeclared {w v : World} {t : TypeId} {f : Declared → Declared}
    (run : Lookup.modifyDeclared t f w = .ok () v) : Change w v
  | modifyVariable {w v : World} {t : TypeId} {f : Variable → Variable}
    (run : Lookup.modifyVariable t f w = .ok () v) : Change w v
  | mention {w v : World} {t : TypeId} {m : Mention} (run : Lookup.addMention t m w = .ok () v) :
    Change w v
  | elsewhere {w v : World} (types : v.types = w.types) (redirects : v.redirects = w.redirects)
    (composites : v.composites = w.composites)
    (named : ∀ (name : Text) (t : TypeId), v.byBinaryName[name]? = some t →
      w.byBinaryName[name]? = some t ∨ (w.row t).shape.isDeclared = true) : Change w v

/-- Any operations one after the other. To look a placeholder up is to make types and to look more
placeholders up until its type is found, and then to replace it in all that mentions it. -/
inductive Builds : World → World → Prop
  | refl (w : World) : Builds w w
  | change {w v z : World} (before : Builds w v) (change : Change v z) : Builds w z
  | lookUp {w v u z : World} {p r : TypeId} {parts : List Text} (before : Builds w v)
    (waiting : (v.row p).shape = .unresolved parts false)
    (loading : Builds (v.lookingUp p parts) u) (found : (u.row r).shape.isDeclared = true)
    (run : Lookup.replaceMentions p r u.types.size (u.redirecting p r) = .ok () z) : Builds w z

theorem intern_quiet_of_ok (run : Lookup.intern c w = .ok t v) : w.Quiet v := by
  obtain ⟨t', v', hrun, hquiet⟩ := intern_quiet w c
  cases hrun.symm.trans run
  exact hquiet

theorem Change.quiet (h : Change w v) : w.Quiet v := by
  cases h with
  | @array elem t dims run =>
    unfold Lookup.array at run
    replace run := bind_rest (Lookup.follow_run _ w) run
    split at run
    · cases run
      exact .refl w
    · replace run := bind_rest (Lookup.rawShape_run _ w) run
      cases hs : (w.row (w.follow (w.follow elem))).shape with
      | composite c =>
        rw [hs] at run
        cases c <;> exact intern_quiet_of_ok run
      | _ =>
        rw [hs] at run
        exact intern_quiet_of_ok run
  | parameterize run =>
    unfold Lookup.parameterizeAs at run
    replace run := bind_rest (Lookup.follow_run _ w) run
    replace run := bind_rest (Lookup.mapM_follow_run _ w) run
    replace run := bind_rest (Lookup.follow_run _ w) run
    exact intern_quiet_of_ok run
  | raw run =>
    unfold Lookup.rawType at run
    replace run := bind_rest (Lookup.follow_run _ w) run
    exact intern_quiet_of_ok run
  | wildcard run =>
    unfold Lookup.wildcard at run
    replace run := bind_rest (Lookup.follow_run _ w) run
    exact intern_quiet_of_ok run
  | intersection run =>
    unfold Lookup.intersection at run
    split at run
    · cases run
      exact .refl w
    · replace run := bind_rest (Lookup.mapM_follow_run _ w) run
      exact intern_quiet_of_ok run
  | typeVariable run =>
    cases run
    exact .adding nofun
  | captured run =>
    cases run
    exact .adding nofun
  | declared run =>
    cases run
    exact .adding nofun
  | @reference t parts run =>
    unfold Lookup.reference at run
    replace run := bind_rest (get_run w) run
    cases hknown : w.byBinaryName[Lookup.internalName parts]? with
    | some u =>
      simp only [hknown] at run
      cases run
      exact .refl w
    | none =>
      simp only [hknown] at run
      replace run := bind_rest (get_run w) run
      cases hplaceholder : w.placeholders[Lookup.internalName parts]? with
      | some u =>
        simp only [hplaceholder] at run
        cases run
        exact .refl w
      | none =>
        simp only [hplaceholder] at run
        cases run
        exact (Quiet.adding (s := .unresolved parts false) nofun).trans (.ofTypes rfl rfl .inl .inl)
  | @missing t parts run =>
    unfold Lookup.missing at run
    replace run := bind_rest (get_run w) run
    cases hknown : w.byBinaryName[Lookup.internalName parts]? with
    | some u =>
      simp only [hknown] at run
      cases run
      exact .refl w
    | none =>
      simp only [hknown] at run
      cases run
      exact .declaring
  | @modifyDeclared t f run =>
    cases run
    refine .withRow ?_
    dsimp only
    split
    next d h => rw [h]; rfl
    next => rfl
  | @modifyVariable t f run =>
    cases run
    refine .withRow ?_
    dsimp only
    split
    next x h => rw [h]; rfl
    next x h => rw [h]; rfl
    next => rfl
  | @mention t m run =>
    cases run
    refine Quiet.withRow (t := w.follow t) ?_
    split <;> rfl
  | elsewhere types redirects composites named =>
    refine .ofTypes types redirects (fun hc => .inl (composites ▸ hc)) fun {name t} hname => ?_
    exact (named name t hname).imp_right isDeclared_iff.mp

/-- What any operations leave as it is: composite and declared types and placeholders that were
looked up stay what they are, what is redirected stays redirected, and a placeholder that is looked
up is redirected in the end. -/
structure Outlasts (w v : World) : Prop where
  keeps : ∀ t, (w.standing t).lasts → v.standing t = w.standing t
  redirected : ∀ t, v.IsLive t → w.IsLive t
  opened : ∀ t, v.standing t = .opened → v.IsLive t → w.standing t = .opened

theorem Outlasts.refl (w : World) : w.Outlasts w := ⟨fun _ _ => rfl, fun _ => id, fun _ h _ => h⟩

theorem Outlasts.trans {z : World} (h : w.Outlasts v) (h' : v.Outlasts z) : w.Outlasts z where
  keeps t ht := (h'.keeps t (by rwa [h.keeps t ht])).trans (h.keeps t ht)
  redirected t ht := h.redirected t (h'.redirected t ht)
  opened t ht hlive := h.opened t (h'.opened t ht hlive) (h'.redirected t hlive)

theorem Quiet.outlasts (h : w.Quiet v) : w.Outlasts v where
  keeps := h.keeps
  redirected _ := h.isLive.mp
  opened _ ht _ := h.opened ht

theorem Settles.outlasts (h : w.Settles v) : w.Outlasts v where
  keeps t _ := h.standing t
  redirected := h.redirected
  opened t ht _ := (h.standing t).symm.trans ht

theorem standing_lookingUp {parts : List Text} (hp : (w.row p).shape = .unresolved parts false)
    (x : TypeId) :
    (w.lookingUp p parts).standing x = if x = p then .opened else w.standing x := by
  have hlt : p.index < w.types.size := lt_size_of_shape (by rw [hp]; rfl)
  show ((w.withRow p _).row x).shape.standing = _
  rw [row_withRow hlt]
  split <;> rfl

theorem Grounded.lookingUp {parts : List Text} (h : w.Grounded)
    (hp : (w.row p).shape = .unresolved parts false) : (w.lookingUp p parts).Grounded := by
  refine h.keep rfl (fun t ht => ?_) .inl .inl
  rw [standing_lookingUp hp, if_neg]
  rintro rfl
  rw [standing, hp] at ht
  cases ht

/-- When the type of a placeholder was found, the placeholder is redirected to it for good. -/
theorem lookedUp_grounded {parts : List Text} (hp : (w.row p).shape = .unresolved parts false)
    (hv : v.Grounded) (hloading : (w.lookingUp p parts).Outlasts v)
    (hr : (v.row r).shape.isDeclared = true) :
    ∃ z, Lookup.replaceMentions p r v.types.size (v.redirecting p r) = .ok () z ∧ z.Grounded ∧
      w.Outlasts z ∧ z.redirects[p]? = some r ∧ z.standing r = .declared := by
  have hopen : (w.lookingUp p parts).standing p = .opened := by
    rw [standing_lookingUp hp, if_pos rfl]
  have hopened : v.standing p = .opened := (hloading.keeps p (by rw [hopen]; rfl)).trans hopen
  have hdeclared := isDeclared_iff.mp hr
  have hne : r ≠ p := by
    rintro rfl
    cases hopened.symm.trans hdeclared
  obtain ⟨z, hrun, hz, hsettles⟩ := replaceMentions_grounded v.types.size p r
    (hv.redirecting (.inr hopened) (.inr hdeclared) (hv.live (.inl hdeclared)) hne)
  have hredirect : z.redirects[p]? = some r := by
    rw [hsettles.others p (by rw [show (v.redirecting p r).standing p = _ from hopened]; nofun)]
    exact Std.HashMap.getElem?_insert_self
  have hlive (t : TypeId) (ht : z.IsLive t) : t ≠ p ∧ v.IsLive t := by
    have hne : t ≠ p := by
      rintro rfl
      cases ht.symm.trans hredirect
    have hinsert : (v.redirects.insert p r)[t]? = none := hsettles.redirected t ht
    rw [Std.HashMap.getElem?_insert, if_neg (by simpa using hne.symm)] at hinsert
    exact ⟨hne, hinsert⟩
  have other {t : TypeId} (ht : t ≠ p) : (w.lookingUp p parts).standing t = w.standing t := by
    rw [standing_lookingUp hp, if_neg ht]
  refine ⟨z, hrun, hz, ⟨fun t ht => ?_, fun t ht => ?_, fun t ht hl => ?_⟩, hredirect,
    (hsettles.standing r).trans hdeclared⟩
  · have hne : t ≠ p := by
      rintro rfl
      rw [standing, hp] at ht
      cases ht
    rw [← other hne] at ht ⊢
    exact (hsettles.standing t).trans (hloading.keeps t ht)
  · exact hloading.redirected t (hlive t ht).2
  · obtain ⟨hne, hl⟩ := hlive t hl
    rw [hsettles.standing] at ht
    rw [← other hne]
    exact hloading.opened t ht hl

/-- Redirections stay grounded, whatever is done. -/
theorem Builds.grounded {z : World} (h : Builds w z) (hw : w.Grounded) :
    z.Grounded ∧ w.Outlasts z := by
  induction h with
  | refl w => exact ⟨hw, .refl w⟩
  | change _ hchange ih =>
    obtain ⟨hv, hlasts⟩ := ih hw
    exact ⟨hchange.quiet.grounded hv, hlasts.trans hchange.quiet.outlasts⟩
  | lookUp _ waiting _ found run ihBefore ihLoading =>
    obtain ⟨hv, hlasts⟩ := ihBefore hw
    obtain ⟨hu, hloading⟩ := ihLoading (hv.lookingUp waiting)
    obtain ⟨z, hrun, hz, hlookedUp, -⟩ := lookedUp_grounded waiting hu hloading found
    cases hrun.symm.trans run
    exact ⟨hz, hlasts.trans hlookedUp⟩

theorem start_grounded : ({} : World).Grounded where
  ends t := ⟨0, t, .here t, Std.HashMap.getElem?_empty⟩
  source h := by cases Std.HashMap.getElem?_empty.symm.trans h
  target h := by cases Std.HashMap.getElem?_empty.symm.trans h
  found h := by cases Std.HashMap.getElem?_empty.symm.trans h
  named h := by cases Std.HashMap.getElem?_empty.symm.trans h

/-! ## The type behind a number -/

theorem isWaiting_iff : (w.row t).shape.isWaiting = true ↔ w.standing t = .waiting := by
  unfold standing
  cases (w.row t).shape with
  | unresolved ps b => cases b <;> simp [Shape.isWaiting, Shape.standing]
  | _ => simp [Shape.isWaiting, Shape.standing]

/-- A type that is no placeholder, looked up or not. -/
theorem not_unresolved (hwaiting : w.standing t ≠ .waiting) (hopened : w.standing t ≠ .opened)
    (ps : List Text) (b : Bool) : (w.row t).shape ≠ .unresolved ps b := by
  intro h
  unfold standing at hwaiting hopened
  rw [h] at hwaiting hopened
  cases b with
  | false => exact hwaiting rfl
  | true => exact hopened rfl

theorem Grounded.not_waiting (h : w.Grounded) (hn : w.Trail n t u) (ht : w.standing t ≠ .waiting) :
    w.standing u ≠ .waiting := by
  cases hn with
  | here => exact ht
  | next hr hn => rcases h.standing_trail hn (.inr (h.target hr)) with hs | hs <;> rw [hs] <;> nofun

/-- The end of the redirections is given if eight steps are enough to get there, and the type after
eight steps otherwise. -/
theorem Grounded.resolve_eq [Answers] (h : w.Grounded) (hn : w.Trail n t u) (hu : w.IsLive u)
    (ht : w.standing t ≠ .waiting) :
    ∃ x, Lookup.resolve t w = .ok x w ∧ w.Trail (min n 8) t x := by
  by_cases hle : n ≤ 8
  · have hwaiting : (w.row u).shape.isWaiting = false := by
      rw [← Bool.not_eq_true, isWaiting_iff]
      exact h.not_waiting hn ht
    refine ⟨u, ?_, by rwa [Nat.min_eq_left hle]⟩
    show Lookup.resolveIn 8 t w = _
    obtain ⟨k, hk⟩ := Nat.exists_eq_add_of_le hle
    rw [hk, hn.resolveIn_eq]
    cases k with
    | zero => rfl
    | succ k => exact resolveIn_live hu hwaiting
  · obtain ⟨x, hx⟩ := hn.take (show 8 ≤ n by omega)
    refine ⟨x, ?_, by rwa [Nat.min_eq_right (by omega)]⟩
    exact hx.resolveIn_eq 0

theorem missing_total (h : w.Grounded) (parts : List Text) :
    ∃ t v, Lookup.missing parts w = .ok t v ∧ v.standing t = .declared := by
  cases hknown : w.byBinaryName[Lookup.internalName parts]? with
  | some t => exact ⟨t, w, missing_run hknown, h.named hknown⟩
  | none =>
    unfold Lookup.missing
    rw [bind_run (get_run w)]
    simp only [hknown]
    refine ⟨w.nextType, _, rfl, ?_⟩
    show ((w.adding _).row w.nextType).shape.standing = _
    rw [row_adding, if_pos rfl]
    rfl

/-- A placeholder is the type that is found by its name, once it was looked up. -/
theorem Builds.resolve_waiting [Answers] {w₀ w u : World} {parts : List Text}
    {found : Option TypeId} (hw : Builds w₀ w) (h₀ : w₀.Grounded)
    (hp : (w.row p).shape = .unresolved parts false)
    (hask : Lookup.binaryType (Lookup.internalName parts) (w.lookingUp p parts) = .ok found u)
    (hloading : Builds (w.lookingUp p parts) u)
    (hfound : ∀ r, found = some r → (u.row r).shape.isDeclared = true) :
    ∃ r v, Lookup.resolve p w = .ok r v ∧ Builds w₀ v ∧ (v.row r).shape.isDeclared = true ∧
      v.IsLive r ∧ v.follow p = r := by
  have hgrounded := (hw.grounded h₀).1
  have hlive : w.IsLive p := hgrounded.live (.inr (by rw [standing, hp]; rfl))
  -- a type that is not found is missing
  obtain ⟨r, u', hfind, hloading', hr⟩ : ∃ r u', (match found with
      | some x => pure x
      | none => Lookup.missing parts : Lookup TypeId) u = .ok r u' ∧
      Builds (w.lookingUp p parts) u' ∧ (u'.row r).shape.isDeclared = true := by
    cases found with
    | some r => exact ⟨r, u, rfl, hloading, hfound r rfl⟩
    | none =>
      have hu := (hloading.grounded (hgrounded.lookingUp hp)).1
      obtain ⟨r, u', hrun, hr⟩ := missing_total hu parts
      exact ⟨r, u', hrun, .change hloading (.missing hrun), isDeclared_iff.mpr hr⟩
  obtain ⟨hu, hlasts⟩ := hloading'.grounded (hgrounded.lookingUp hp)
  obtain ⟨v, hrun, hv, -, hredirect, hdeclared⟩ := lookedUp_grounded hp hu hlasts hr
  have hrlive := hv.live (.inl hdeclared)
  refine ⟨r, v, ?_, .lookUp hw hp hloading' hr hrun, isDeclared_iff.mpr hdeclared, hrlive,
    follow_redirected hredirect hrlive⟩
  have hlookUp : Lookup.lookUp p parts w = .ok () v := by
    unfold Lookup.lookUp
    rw [bind_run (show Lookup.modifyShape p (fun _ => .unresolved parts true) w =
      .ok () (w.lookingUp p parts) from rfl), bind_run hask]
    cases found with
    | some x =>
      cases hfind
      exact hrun
    | none => exact (bind_run hfind).trans hrun
  show Lookup.resolveIn 8 p w = _
  rw [Lookup.resolveIn, bind_run (get_run w)]
  simp only [show w.redirects[p]? = none from hlive]
  rw [bind_run (Lookup.entry_run p w)]
  simp only [hp]
  rw [bind_run hlookUp, resolveIn_redirected hredirect]
  exact resolveIn_live hrlive (isWaiting_of_declared (isDeclared_iff.mpr hdeclared))

/-- Whatever was done, redirections do not come back to where they start: from every type they end,
after at most as many steps as there are redirections. To resolve a type never gives a placeholder.
It gives a type that is not redirected exactly if no more than eight redirections lead there, and
this is then the end of them. A placeholder that was not looked up is one redirection away from the
type that is found, if loading that type is a sequence of operations as well. -/
theorem redirections_grounded [Answers] {w : World} (run : Builds {} w) :
    (∀ n t, w.Trail n t t → n = 0) ∧
    (∀ t, ∃ n ≤ w.redirects.size, w.Trail n t (w.follow t) ∧ w.IsLive (w.follow t) ∧
      ((w.row t).shape.isWaiting = false → ∃ u, Lookup.resolve t w = .ok u w ∧
        (∀ ps b, (w.row u).shape ≠ .unresolved ps b) ∧ (w.IsLive u ↔ n ≤ 8) ∧
        (n ≤ 8 → u = w.follow t))) ∧
    ∀ p parts found u, (w.row p).shape = .unresolved parts false →
      Lookup.binaryType (Lookup.internalName parts) (w.lookingUp p parts) = .ok found u →
      Builds (w.lookingUp p parts) u →
      (∀ r, found = some r → (u.row r).shape.isDeclared = true) →
      ∃ r v, Lookup.resolve p w = .ok r v ∧ Builds {} v ∧ (v.row r).shape.isDeclared = true ∧
        v.IsLive r ∧ v.follow p = r := by
  obtain ⟨h, hlasts⟩ := run.grounded start_grounded
  refine ⟨fun n t hn => ?_, fun t => ?_, fun p parts found u hp hask hloading hfound =>
    run.resolve_waiting start_grounded hp hask hloading hfound⟩
  · obtain ⟨m, u, hm, hu⟩ := h.ends t
    exact hn.irreflexive hm hu
  · obtain ⟨n, hn, hlive⟩ := h.trail t
    refine ⟨n, hn.length_le hlive, hn, hlive, fun ht => ?_⟩
    have hwaiting : w.standing t ≠ .waiting := by
      rw [Ne, ← isWaiting_iff, ht]
      nofun
    obtain ⟨u, hrun, hu⟩ := h.resolve_eq hn hlive hwaiting
    have hnotWaiting := h.not_waiting hu hwaiting
    by_cases hle : n ≤ 8
    · rw [Nat.min_eq_left hle] at hu
      obtain rfl := hn.functional hu
      -- a placeholder that was looked up is redirected
      have hnotOpened : w.standing (w.follow t) ≠ .opened := by
        intro hs
        have hstart := hlasts.opened _ hs hlive
        unfold standing at hstart
        rcases start_cases (w.follow t) with h | ⟨b, h⟩ | h <;> rw [h] at hstart <;> cases hstart
      exact ⟨_, hrun, not_unresolved hnotWaiting hnotOpened, iff_of_true hlive hle, fun _ => rfl⟩
    · rw [Nat.min_eq_right (by omega)] at hu
      have hnotLive : ¬ w.IsLive u := by
        intro hul
        have := ((hn.drop hu (by omega)).eq_zero hul).1
        omega
      have hnotOpened : w.standing u ≠ .opened := by
        rcases h.standing_trail hu (.inl (by decide)) with hs | hs <;> rw [hs] <;> nofun
      exact ⟨u, hrun, not_unresolved hnotWaiting hnotOpened, iff_of_false hnotLive hle,
        fun h => absurd h hle⟩

/-- A placeholder and its array type, when the class of its name was added. -/
theorem sample_builds : ∃ w : World, Builds {} w ∧ (w.row ⟨11⟩).shape = .unresolved ["P"] false ∧
    w.byBinaryName[Lookup.internalName ["P"]]? = some ⟨13⟩ ∧
    (w.row ⟨13⟩).shape = .declared sampleClass := by
  obtain ⟨w₁, w₂, w₃, h₁, h₂, h₃, -, hname, hrow⟩ := sample_run
  refine ⟨w₃, ?_, hrow ⟨11⟩, hname, hrow ⟨13⟩⟩
  have before : Builds {} w₂ := .change (.change (.refl _) (.reference h₁)) (.array h₂)
  have hrecord : Lookup.recordType sampleClass w₂ = .ok w₂.nextType
      { w₂.adding (.declared sampleClass) with
        byBinaryName := w₂.byBinaryName.insert "P" w₂.nextType } := rfl
  obtain ⟨-, rfl⟩ := EStateM.Result.ok.inj (hrecord.symm.trans h₃)
  refine .change (.change before (.declared (d := sampleClass) rfl))
    (.elsewhere rfl rfl rfl fun name t hname => ?_)
  rw [Std.HashMap.getElem?_insert] at hname
  split at hname
  · obtain rfl := Option.some.inj hname
    right
    show ((w₂.adding _).row w₂.nextType).shape.isDeclared = true
    rw [row_adding, if_pos rfl]
    rfl
  · exact .inl hname

/-- A placeholder turns out to be a class, one redirection away. -/
theorem redirections_grounded_class : ∃ w : World, Builds {} w ∧
    (w.row ⟨11⟩).shape = .unresolved ["P"] false ∧ (∀ n, w.Trail n ⟨11⟩ ⟨11⟩ → n = 0) ∧
    ∃ r v, Lookup.resolve ⟨11⟩ w = .ok r v ∧ Builds {} v ∧ v.IsLive r ∧ v.follow ⟨11⟩ = r := by
  obtain ⟨w, run, hp, hname, hclass⟩ := sample_builds
  obtain ⟨hcircle, -, hresolve⟩ := redirections_grounded run
  have hrow : (w.lookingUp ⟨11⟩ ["P"]).row ⟨13⟩ = w.row ⟨13⟩ :=
    (row_withRow (lt_size_of_shape (by rw [hp]; rfl)) _ _).trans (if_neg (by decide))
  have hgrounded := ((run.grounded start_grounded).1).lookingUp hp
  have hdeclared : ((w.lookingUp ⟨11⟩ ["P"]).row ⟨13⟩).shape.isDeclared = true := by
    rw [hrow, hclass]
    rfl
  have hask := binaryType_run (w := w.lookingUp ⟨11⟩ ["P"]) hname
    (hgrounded.live (.inl (isDeclared_iff.mp hdeclared))) (isWaiting_of_declared hdeclared)
  obtain ⟨r, v, hrun, hbuilds, -, hlive, hfollow⟩ := hresolve ⟨11⟩ ["P"] _ _ hp hask (.refl _)
    fun r hr => by
      split at hr
      · cases hr
      · obtain rfl := Option.some.inj hr
        exact hdeclared
  exact ⟨w, run, hp, fun n => hcircle n _, r, v, hrun, hbuilds, hlive, hfollow⟩

end World

end Javelin
