import Mathlib.Data.List.Nodup
import Javelin.Proofs.Types.Canonical

/-!
# Operations on canonical tables

Each operation adds at most one row or one member, and notes it at those of the types that it
mentions which wait for a placeholder.

1. `World.Notes`, what notes change, and `World.Adds`, what is added.
2. The operations keep the tables canonical.
-/

namespace Javelin

open Run

namespace World

variable {w v : World} {t u x : TypeId} {c : Composite}

/-! ## Notes -/


/-- A step that only notes one thing at those of the given types that are pending, and may mark
types as pending. -/
structure Notes (w v : World) (m : Mention) (ts : List TypeId) : Prop where
  rest : { v with types := w.types } = w
  size : v.types.size = w.types.size
  shape : ∀ x : TypeId, (v.row x).shape = (w.row x).shape
  kept : ∀ {x : TypeId} {n : Mention}, n ∈ (w.row x).mentions → n ∈ (v.row x).mentions
  added : ∀ {x : TypeId} {n : Mention},
    n ∈ (v.row x).mentions → n ∈ (w.row x).mentions ∨ n = m ∧ x ∈ ts
  noted : ∀ {x : TypeId}, x ∈ ts → w.pending x = true → m ∈ (v.row x).mentions
  once : ∀ {x : TypeId}, (w.row x).mentions.Nodup → (v.row x).mentions.Nodup
  marked : ∀ {x : TypeId}, (w.row x).isPending = true → (v.row x).isPending = true
  pending : ∀ {x t : TypeId},
    x ∈ ts → w.pending x = true → m = .type t → (v.row t).isPending = true

theorem row_withRow (ht : t.index < w.types.size) (f : TypeEntry → TypeEntry) (x : TypeId) :
    (w.withRow t f).row x = if x = t then f (w.row t) else w.row x := by
  unfold row withRow
  simp only [Array.getD_eq_getD_getElem?, Array.getElem?_modify]
  by_cases hx : x = t
  · subst hx
    simp [Array.getElem?_eq_getElem ht]
  · rw [if_neg hx, if_neg fun hi => hx (TypeId.eq_of_index hi.symm)]

namespace Notes

variable {m : Mention} {ts us : List TypeId}

theorem redirects (h : w.Notes v m ts) : v.redirects = w.redirects := by
  have hrest := congrArg World.redirects h.rest
  exact hrest

theorem composites (h : w.Notes v m ts) : v.composites = w.composites := by
  have hrest := congrArg World.composites h.rest
  exact hrest

theorem placeholders (h : w.Notes v m ts) : v.placeholders = w.placeholders := by
  have hrest := congrArg World.placeholders h.rest
  exact hrest

theorem byBinaryName (h : w.Notes v m ts) : v.byBinaryName = w.byBinaryName := by
  have hrest := congrArg World.byBinaryName h.rest
  exact hrest

theorem follow (h : w.Notes v m ts) (x : TypeId) : v.follow x = w.follow x := by
  rw [World.follow, World.follow, h.redirects]

theorem stays_pending (h : w.Notes v m ts) (hx : w.pending x = true) : v.pending x = true := by
  rw [World.pending, h.follow, h.shape]
  rw [World.pending] at hx
  simp only [Bool.or_eq_true] at hx ⊢
  exact hx.imp_left h.marked

theorem refl (m : Mention) (ts : List TypeId) (hts : ∀ x ∈ ts, w.pending x = false) :
    w.Notes w m ts where
  rest := rfl
  size := rfl
  shape _ := rfl
  kept hn := hn
  added hn := .inl hn
  noted hx hp := by
    rw [hts _ hx] at hp
    cases hp
  once hn := hn
  marked hn := hn
  pending hx hp := by
    rw [hts _ hx] at hp
    cases hp

theorem trans {u : World} (h : w.Notes v m ts) (h' : v.Notes u m us) : w.Notes u m (ts ++ us) where
  rest := by
    have := congrArg (fun v : World => { v with types := w.types }) h'.rest
    exact this.trans h.rest
  size := h'.size.trans h.size
  shape x := (h'.shape x).trans (h.shape x)
  kept hn := h'.kept (h.kept hn)
  added hn := by
    rcases h'.added hn with hn | ⟨rfl, hx⟩
    · exact (h.added hn).imp_right fun ⟨hm, hx⟩ => ⟨hm, List.mem_append_left _ hx⟩
    · exact .inr ⟨rfl, List.mem_append_right _ hx⟩
  noted hx hp := by
    rcases List.mem_append.mp hx with hx | hx
    · exact h'.kept (h.noted hx hp)
    · exact h'.noted hx (h.stays_pending hp)
  once hn := h'.once (h.once hn)
  marked hn := h'.marked (h.marked hn)
  pending hx hp hm := by
    rcases List.mem_append.mp hx with hx | hx
    · exact h'.marked (h.pending hx hp hm)
    · exact h'.pending hx (h.stays_pending hp) hm

theorem note {m : Mention} (hlive : w.IsLive t) (ht : t.index < w.types.size)
    (hm : ∀ u, m = .type u → (w.row u).isPending = true) : w.Notes (w.noting? t m) m [t] := by
  have hnoting : w.noting? t m = w.withRow t fun e =>
      if e.mentions.contains m then e else { e with mentions := e.mentions ++ [m] } := by
    rw [noting?, follow_live hlive]
  rw [hnoting]
  have hmarked (x : TypeId) (hx : (w.row x).isPending = true) :
      ((w.withRow t fun e => if e.mentions.contains m then e
        else { e with mentions := e.mentions ++ [m] }).row x).isPending = true := by
    rw [row_withRow ht]
    split
    next hxt =>
      subst hxt
      split <;> exact hx
    next => exact hx
  constructor
  case rest => rfl
  case size => exact size_withRow ..
  case marked => exact fun {x} => hmarked x
  case pending => exact fun {_ u} _ _ hu => hmarked u (hm u hu)
  case once =>
    intro x hn
    rw [row_withRow ht]
    split
    next hx =>
      subst hx
      split
      next => exact hn
      next hcontains =>
        have hnot : m ∉ (w.row x).mentions := by simpa using hcontains
        exact List.concat_eq_append ▸ List.Nodup.concat hnot hn
    next => exact hn
  all_goals
    intro x
    rw [row_withRow ht]
    by_cases hx : x = t
    · subst hx
      simp only [if_true, List.mem_singleton]
      split <;> simp_all
    · simp_all

theorem mark (m : Mention) (ht : t.index < w.types.size) :
    w.Notes (w.withRow t fun e => { e with isPending := true }) m [] := by
  constructor
  case rest => rfl
  case size => exact size_withRow ..
  case pending => nofun
  all_goals
    intro x
    rw [row_withRow ht]
    by_cases hx : x = t
    · subst hx
      simp_all
    · simp_all

/-- The types are noted one after the other. -/
theorem foldl {f : World → TypeId → World}
    (hf : ∀ (v : World) (x : TypeId), x ∈ ts → v.redirects = w.redirects →
      v.types.size = w.types.size → v.Notes (f v x) m [x]) :
    w.Notes (ts.foldl f w) m ts := by
  have from_here (us : List TypeId) (hus : us ⊆ ts) : ∀ v : World, v.redirects = w.redirects →
      v.types.size = w.types.size → v.Notes (us.foldl f v) m us := by
    induction us with
    | nil => exact fun v _ _ => refl m [] (by simp)
    | cons x us ih =>
      intro v hr hs
      have hstep := hf v x (hus List.mem_cons_self) hr hs
      exact hstep.trans (ih (fun y hy => hus (List.mem_cons_of_mem x hy)) _
        (hstep.redirects.trans hr) (hstep.size.trans hs))
  exact from_here ts (List.Subset.refl ts) w rfl rfl

end Notes

/-! ## Rows and members that are added -/

theorem row_adding (w : World) (s : Shape) (x : TypeId) :
    (w.adding s).row x = if x = w.nextType then { shape := s } else w.row x := by
  unfold row adding nextType
  simp only [Array.getD_eq_getD_getElem?, Array.getElem?_push]
  by_cases hx : x = ⟨w.types.size⟩
  · subst hx
    simp
  · rw [if_neg hx, if_neg fun h => hx (TypeId.eq_of_index h)]

theorem mentioned_congr {n : Mention} (hf : v.fields = w.fields) (hm : v.methods = w.methods)
    (h : ∀ x : TypeId, n = .type x → (v.row x).shape = (w.row x).shape) :
    v.mentioned n = w.mentioned n := by
  cases n with
  | type x => rw [mentioned, mentioned, h x rfl]
  | field f => rw [mentioned, mentioned, hf]
  | method m => rw [mentioned, mentioned, hm]

theorem Notes.mentioned {m : Mention} {ts : List TypeId} (h : w.Notes v m ts) (n : Mention) :
    v.mentioned n = w.mentioned n := by
  have hrest := h.rest
  refine mentioned_congr ?_ ?_ fun x _ => h.shape x
  · have hf := congrArg World.fields hrest
    exact hf
  · have hm := congrArg World.methods hrest
    exact hm

/-- A step that adds at most one row, or one member. -/
structure Adds (w v : World) (m : Mention) (ts : List TypeId) : Prop where
  size : w.types.size ≤ v.types.size
  row : ∀ {x : TypeId}, x.index < w.types.size → v.row x = w.row x
  fresh : ∀ {x : TypeId}, w.types.size ≤ x.index → (v.row x).mentions = []
  redirects : v.redirects = w.redirects
  isNew : ∀ {t : TypeId}, m = .type t → w.types.size ≤ t.index
  isOnly : ∀ {x t : TypeId}, w.types.size ≤ t.index → x ∈ v.mentioned (.type t) → m = .type t
  mentions : v.mentioned m = ts
  others : ∀ {n : Mention}, n ≠ m → v.mentioned n = w.mentioned n
  live : ∀ {x : TypeId}, x ∈ ts → w.IsLive x
  inside : ∀ {x : TypeId}, x ∈ ts → x.index < w.types.size
  known : ∀ {c : Composite} {t : TypeId}, (w.composites[c]? = some t ↔
      w.IsLive t ∧ (w.row t).shape = .composite c) →
    (v.composites[c]? = some t ↔ v.IsLive t ∧ (v.row t).shape = .composite c)
  flat : ∀ {t e : TypeId} {n : Nat}, w.types.size ≤ t.index →
    (v.row t).shape = .composite (.array e n) → (w.row e).shape.isArray = false
  placeholders : ∀ {name : Text} {t : TypeId},
    w.placeholders[name]? = some t → v.placeholders[name]? = some t
  placeholder : ∀ {t : TypeId} {ps : List Text} {b : Bool}, w.types.size ≤ t.index →
    (v.row t).shape = .unresolved ps b →
      v.placeholders[Lookup.internalName ps]? = some t ∧ b = false
  named : ∀ {name : Text} {t : TypeId}, v.byBinaryName[name]? = some t →
    w.byBinaryName[name]? = some t ∨ (v.row t).shape.isDeclared = true

theorem Adds.pending {m : Mention} {ts : List TypeId} (a : w.Adds v m ts) (hx : x ∈ ts)
    (hp : w.pending x = true) : v.pending x = true := by
  have hlive : v.IsLive x := (congrArg (·[x]?) a.redirects).trans (a.live hx)
  rw [World.pending, follow_live hlive, a.row (a.inside hx)]
  rwa [World.pending, follow_live (a.live hx)] at hp

/-- Canonical tables stay canonical if what is added is noted. -/
theorem Canonical.add {w₁ : World} {m : Mention} {ts : List TypeId} (h : w.Canonical)
    (a : w.Adds w₁ m ts) (n : w₁.Notes v m ts) : v.Canonical := by
  have grows : w.Grows v m ts :=
    { size := n.size ▸ a.size
      shape := fun {x} hx => (n.shape x).trans (congrArg TypeEntry.shape (a.row hx))
      redirects := n.redirects.trans a.redirects
      isNew := a.isNew
      mentions := (n.mentioned m).trans a.mentions
      others := fun hne => (n.mentioned _).trans (a.others hne)
      live := a.live
      inside := a.inside
      kept := fun {x k} hk => n.kept (by
        by_cases hx : x.index < w.types.size
        · rwa [a.row hx]
        · rw [row_outside (Nat.le_of_not_lt hx)] at hk
          cases hk)
      added := fun {x k} hk => (n.added hk).imp_left fun hk => by
        by_cases hx : x.index < w.types.size
        · rwa [← a.row hx]
        · rw [a.fresh (Nat.le_of_not_lt hx)] at hk
          cases hk
      noted := fun hx hp => n.noted hx (a.pending hx hp)
      once := fun {x} hnodup => n.once (by
        by_cases hx : x.index < w.types.size
        · rwa [a.row hx]
        · rw [a.fresh (Nat.le_of_not_lt hx)]
          exact List.nodup_nil)
      known := fun {c t} hk => by
        rw [n.composites, n.shape, IsLive, n.redirects]
        exact a.known hk
      marked := fun {x} hp => n.marked (by
        by_cases hx : x.index < w.types.size
        · rwa [a.row hx]
        · rw [row_outside (Nat.le_of_not_lt hx)] at hp
          cases hp)
      markedNew := fun {t} ht => .inr fun x hx hp => by
        rw [n.mentioned] at hx
        have hm := a.isOnly ht hx
        have hts : x ∈ ts := a.mentions ▸ hm ▸ hx
        exact n.pending hts (a.pending hts hp) hm
      flat := fun ht hs => a.flat ht (n.shape _ ▸ hs)
      placeholders := fun hp => n.placeholders ▸ a.placeholders hp
      placeholder := fun ht hs => n.placeholders ▸ a.placeholder ht (n.shape _ ▸ hs)
      named := fun hname => by
        rw [n.shape]
        exact a.named (n.byBinaryName ▸ hname) }
  exact h.grow grows

theorem Canonical.live_nextType (h : w.Canonical) : w.IsLive w.nextType := by
  cases ht : w.redirects[w.nextType]? with
  | none => exact ht
  | some u => exact absurd (h.redirected ht).1 (Nat.lt_irrefl _)

/-- A new row is added. -/
theorem Canonical.adds_row {s : Shape} (h : w.Canonical) (types : v.types = (w.adding s).types)
    (redirects : v.redirects = w.redirects) (fields : v.fields = w.fields)
    (methods : v.methods = w.methods)
    (composites : ∀ {c : Composite} {t : TypeId}, v.composites[c]? = some t ↔
      w.composites[c]? = some t ∨ s = .composite c ∧ t = w.nextType)
    (parts : ∀ {c : Composite}, s = .composite c →
      ∀ x ∈ c.components, w.IsLive x ∧ x.index < w.types.size)
    (flat : ∀ {e : TypeId} {n : Nat}, s = .composite (.array e n) → (w.row e).shape.isArray = false)
    (placeholders : ∀ {name : Text} {t : TypeId},
      w.placeholders[name]? = some t → v.placeholders[name]? = some t)
    (placeholder : ∀ {ps : List Text} {b : Bool}, s = .unresolved ps b →
      v.placeholders[Lookup.internalName ps]? = some w.nextType ∧ b = false)
    (named : ∀ {name : Text} {t : TypeId}, v.byBinaryName[name]? = some t →
      w.byBinaryName[name]? = some t ∨ s.isDeclared = true ∧ t = w.nextType) :
    w.Adds v (.type w.nextType) ((s.composite?.map Composite.components).getD []) := by
  have row (x : TypeId) : v.row x = if x = w.nextType then { shape := s } else w.row x :=
    (congrArg (fun ts : Array TypeEntry => ts.getD x.index {}) types).trans (row_adding w s x)
  have row_next : v.row w.nextType = { shape := s } := (row _).trans (if_pos rfl)
  have row_old {x : TypeId} (hx : x.index < w.types.size) : v.row x = w.row x :=
    (row x).trans (if_neg (by
      rintro rfl
      exact absurd hx (Nat.lt_irrefl _)))
  have row_new {x : TypeId} (hx : w.types.size ≤ x.index) (hne : x ≠ w.nextType) : v.row x = {} :=
    ((row x).trans (if_neg hne)).trans (row_outside hx)
  exact
    { size := by
        rw [types]
        exact Nat.le_trans (Nat.le_succ _) (Nat.le_of_eq (Array.size_push ..).symm)
      row := row_old
      fresh := fun {x} hx => by
        by_cases hne : x = w.nextType
        · rw [hne, row_next]
        · rw [row_new hx hne]
      redirects
      isNew := by
        rintro t ⟨⟩
        exact Nat.le_refl _
      isOnly := fun {x t} ht hx => by
        by_cases hne : t = w.nextType
        · rw [hne]
        · obtain ⟨c, hc, -⟩ := mem_mentioned_type.mp hx
          rw [row_new ht hne] at hc
          cases hc
      mentions := by rw [mentioned, row_next]
      others := fun {n} hn => mentioned_congr fields methods fun x hx => by
        rw [row x, if_neg fun hxt => hn (hx.trans (congrArg Mention.type hxt))]
      live := fun {x} hx => by
        cases s with
        | composite c => exact (parts rfl x hx).1
        | _ => cases hx
      inside := fun {x} hx => by
        cases s with
        | composite c => exact (parts rfl x hx).2
        | _ => cases hx
      known := fun {c t} hk => by
        rw [composites, hk, IsLive, IsLive, redirects, row]
        by_cases ht : t = w.nextType
        · subst ht
          have hout : w.row w.nextType = {} := row_outside (Nat.le_refl _)
          have hlive : w.redirects[w.nextType]? = none := h.live_nextType
          simp [hout, hlive]
        · simp [ht]
      flat := fun {t e n} ht hs => by
        by_cases hne : t = w.nextType
        · rw [hne, row_next] at hs
          exact flat hs
        · rw [row_new ht hne] at hs
          cases hs
      placeholders
      placeholder := fun {t ps b} ht hs => by
        by_cases hne : t = w.nextType
        · rw [hne, row_next] at hs
          exact hne ▸ placeholder hs
        · rw [row_new ht hne] at hs
          cases hs
      named := fun hname => (named hname).imp_right fun ⟨hs, ht⟩ => by rwa [ht, row_next] }

end World

namespace Lookup

open World

variable {w w' : World} {t : TypeId}

theorem notes_interned (c : Composite)
    (hc : ∀ x ∈ c.components, w.IsLive x ∧ x.index < w.types.size) :
    ({ w.adding (.composite c) with composites := w.composites.insert c w.nextType } : World).Notes
      (w.interned c) (.type w.nextType) c.components := by
  refine Notes.foldl fun v x hx hr hs => ?_
  have hsize : v.types.size = w.types.size + 1 := hs.trans (Array.size_push ..)
  have hnext : w.nextType.index < v.types.size := hsize ▸ Nat.lt_succ_self w.types.size
  unfold awaiting
  split
  next hp =>
    have hmark := Notes.mark (.type w.nextType) hnext
    refine hmark.trans (Notes.note ?_ ?_ ?_)
    · exact (congrArg (·[x]?) hr).trans (hc x hx).1
    · exact hmark.size ▸ hsize ▸ Nat.lt_succ_of_lt (hc x hx).2
    · rintro u ⟨⟩
      rw [row_withRow hnext, if_pos rfl]
  next hp =>
    refine Notes.refl _ _ fun y hy => ?_
    rw [List.mem_singleton.mp hy]
    exact Bool.not_eq_true _ ▸ hp

/-! ## Operations -/

theorem intern_canonical {c : Composite} (hrun : intern c w = .ok t w') (h : w.Canonical)
    (hc : ∀ x ∈ c.components, w.IsLive x ∧ x.index < w.types.size)
    (hflat : ∀ {e n}, c = .array e n → (w.row e).shape.isArray = false) : w'.Canonical := by
  cases hknown : w.composites[c]? with
  | some u =>
    rw [intern_known hknown] at hrun
    cases hrun
    exact h
  | none =>
    rw [intern_new hknown] at hrun
    cases hrun
    refine h.add ?_ (notes_interned c hc)
    refine h.adds_row (s := .composite c) rfl rfl rfl rfl ?_ ?_ ?_ id nofun .inl
    · intro d u
      rw [Std.HashMap.getElem?_insert]
      by_cases hcd : c = d
      · subst hcd
        simp [hknown, eq_comm]
      · simp [hcd]
    · rintro d ⟨⟩
      exact hc
    · rintro e n ⟨⟩
      exact hflat rfl

theorem array_canonical {elem : TypeId} {dims : Nat} (hrun : array elem dims w = .ok t w')
    (h : w.Canonical) (he : elem.index < w.types.size) : w'.Canonical := by
  have hlive := h.live_follow elem
  have hsize := h.follow_lt he
  unfold array at hrun
  replace hrun := bind_rest (follow_run elem w) hrun
  split at hrun
  · cases hrun
    exact h
  replace hrun := bind_rest (rawShape_run (w.follow elem) w) hrun
  rw [follow_live hlive] at hrun
  have ofElem (hs : (w.row (w.follow elem)).shape.isArray = false)
      (hrun : intern (.array (w.follow elem) dims) w = .ok t w') : w'.Canonical := by
    refine intern_canonical hrun h ?_ ?_
    · rintro x (_ | ⟨_, ⟨⟩⟩)
      exact ⟨hlive, hsize⟩
    · rintro e n ⟨⟩
      exact hs
  cases hs : (w.row (w.follow elem)).shape with
  | composite c =>
    rw [hs] at hrun
    cases c with
    | array e n =>
      have hmem : e ∈ w.mentioned (.type (w.follow elem)) :=
        mem_mentioned_type.mpr ⟨_, hs, List.mem_singleton_self e⟩
      refine intern_canonical hrun h ?_ ?_
      · rintro x (_ | ⟨_, ⟨⟩⟩)
        exact ⟨h.live (m := .type (w.follow elem)) hlive hmem, h.inside hmem⟩
      · rintro e' n' ⟨⟩
        exact h.flat hs
    | _ => exact ofElem (by rw [hs]; rfl) hrun
  | _ =>
    rw [hs] at hrun
    exact ofElem (by rw [hs]; rfl) hrun

/-- The types that the numbers stand for are components that can be used. -/
theorem follow_usable (h : w.Canonical) (ts : List TypeId)
    (hts : ∀ x ∈ ts, x.index < w.types.size) :
    ∀ x ∈ ts.map w.follow, w.IsLive x ∧ x.index < w.types.size := by
  intro x hx
  obtain ⟨y, hy, rfl⟩ := List.mem_map.mp hx
  exact ⟨h.live_follow y, h.follow_lt (hts y hy)⟩

theorem parameterizeAs_canonical {g outer : TypeId} {args : List TypeId} {degraded : Bool}
    (hrun : parameterizeAs g args outer degraded w = .ok t w') (h : w.Canonical)
    (hts : ∀ x ∈ g :: outer :: args, x.index < w.types.size) : w'.Canonical := by
  unfold parameterizeAs at hrun
  replace hrun := bind_rest (follow_run g w) hrun
  replace hrun := bind_rest (mapM_follow_run args w) hrun
  replace hrun := bind_rest (follow_run outer w) hrun
  exact intern_canonical hrun h (follow_usable h _ hts) nofun

theorem rawType_canonical {g : TypeId} (hrun : rawType g w = .ok t w') (h : w.Canonical)
    (hg : g.index < w.types.size) : w'.Canonical := by
  unfold rawType at hrun
  replace hrun := bind_rest (follow_run g w) hrun
  exact intern_canonical hrun h (follow_usable h [g] (by simpa using hg)) nofun

theorem wildcard_canonical {bound : TypeId} {kind : WildcardKind}
    (hrun : wildcard bound kind w = .ok t w') (h : w.Canonical)
    (hbound : bound.index < w.types.size) : w'.Canonical := by
  unfold wildcard at hrun
  replace hrun := bind_rest (follow_run bound w) hrun
  refine intern_canonical hrun h ?_ nofun
  rintro x (_ | ⟨_, ⟨⟩⟩)
  split
  · exact h.none_usable
  · exact ⟨h.live_follow bound, h.follow_lt hbound⟩

theorem intersection_canonical {ts : List TypeId} (hrun : intersection ts w = .ok t w')
    (h : w.Canonical) (hts : ∀ x ∈ ts, x.index < w.types.size) : w'.Canonical := by
  unfold intersection at hrun
  split at hrun
  · cases hrun
    exact h
  · replace hrun := bind_rest (mapM_follow_run _ w) hrun
    exact intern_canonical hrun h (follow_usable h _ hts) nofun

theorem reference_canonical {parts : List Text} (hrun : reference parts w = .ok t w')
    (h : w.Canonical) : w'.Canonical := by
  unfold reference at hrun
  replace hrun := bind_rest (get_run w) hrun
  cases hknown : w.byBinaryName[internalName parts]? with
  | some u =>
    simp only [hknown] at hrun
    cases hrun
    exact h
  | none =>
    simp only [hknown] at hrun
    replace hrun := bind_rest (get_run w) hrun
    cases hplaceholder : w.placeholders[internalName parts]? with
    | some u =>
      simp only [hplaceholder] at hrun
      cases hrun
      exact h
    | none =>
      simp only [hplaceholder] at hrun
      cases hrun
      refine h.add ?_ (Notes.refl (.type w.nextType) [] (by simp))
      refine h.adds_row (s := .unresolved parts false) rfl rfl rfl rfl ?_ nofun nofun ?_ ?_ .inl
      · simp
      · intro name u hu
        rw [Std.HashMap.getElem?_insert]
        split
        next hname =>
          rw [← beq_iff_eq.mp hname, hplaceholder] at hu
          cases hu
        next => exact hu
      · rintro ps b ⟨⟩
        exact ⟨Std.HashMap.getElem?_insert_self, rfl⟩

/-- A declared type is added under its name in class files. -/
def recordType (d : Declared) : Lookup TypeId := do
  let t ← addType (.declared d)
  modify fun w => { w with byBinaryName := w.byBinaryName.insert d.binaryName t }
  return t

theorem recordType_canonical {d : Declared} (hrun : recordType d w = .ok t w')
    (h : w.Canonical) : w'.Canonical := by
  cases hrun
  refine h.add ?_ (Notes.refl (.type w.nextType) [] (by simp))
  refine h.adds_row (s := .declared d) rfl rfl rfl rfl ?_ nofun nofun id nofun ?_
  · simp
  · intro name u hu
    rw [Std.HashMap.getElem?_insert] at hu
    split at hu
    · cases hu
      exact .inr ⟨rfl, rfl⟩
    · exact .inl hu

theorem addVariable_canonical {name : Text} {rank : Nat} {ofType : TypeId} {ofMethod : MethodId}
    (hrun : addVariable name rank ofType ofMethod w = .ok t w') (h : w.Canonical) :
    w'.Canonical := by
  cases hrun
  refine h.add ?_ (Notes.refl (.type w.nextType) [] (by simp))
  exact h.adds_row rfl rfl rfl rfl (by simp [adding]) nofun nofun id nofun .inl

/-! ### Members -/

theorem noteMember_run (m : Mention) (ts : List TypeId) (w : World) : noteMember m ts w =
    .ok () (ts.foldl (fun w t => if w.pending t then w.noting? t m else w) w) := by
  induction ts generalizing w with
  | nil => rfl
  | cons t ts ih =>
    rw [List.foldl_cons, ← ih]
    change ((do if ← isPending t then addMention t m) >>= fun _ => noteMember m ts) w = _
    refine bind_run (a := ⟨⟩) ?_
    rw [bind_run (isPending_run t w)]
    split
    · exact addMention_run t m w
    · rfl

/-- What is added beside the table of types is noted at the types that it mentions. -/
theorem noteMember_canonical {v : World} {m : Mention} {ts : List TypeId}
    (hrun : noteMember m ts v = .ok () w') (h : w.Canonical)
    (hv : { v with fields := w.fields, methods := w.methods } = w) (hm : ∀ x, m ≠ .type x)
    (hts : ∀ x ∈ ts, w.IsLive x ∧ x.index < w.types.size) (mentions : v.mentioned m = ts)
    (others : ∀ {n}, n ≠ m → v.mentioned n = w.mentioned n) : w'.Canonical := by
  have types : v.types = w.types := by
    have := congrArg World.types hv
    exact this
  have redirects : v.redirects = w.redirects := by
    have := congrArg World.redirects hv
    exact this
  have composites : v.composites = w.composites := by
    have := congrArg World.composites hv
    exact this
  have placeholders : v.placeholders = w.placeholders := by
    have := congrArg World.placeholders hv
    exact this
  have byBinaryName : v.byBinaryName = w.byBinaryName := by
    have := congrArg World.byBinaryName hv
    exact this
  have row (x : TypeId) : v.row x = w.row x := by rw [World.row, World.row, types]
  have outside {x : TypeId} (hx : w.types.size ≤ x.index) : v.row x = {} :=
    (row x).trans (row_outside hx)
  rw [noteMember_run] at hrun
  cases hrun
  have adds : w.Adds v m ts :=
    { size := types ▸ Nat.le_refl _
      row := fun {x} _ => row x
      fresh := fun {x} hx => by rw [outside hx]
      redirects
      isNew := fun {t} ht => absurd ht (hm t)
      isOnly := fun {x t} ht hx => by
        rw [others (hm t).symm] at hx
        obtain ⟨c, hc, -⟩ := mem_mentioned_type.mp hx
        exact absurd (lt_size_of_composite hc) (Nat.not_lt.mpr ht)
      mentions
      others
      live := fun hx => (hts _ hx).1
      inside := fun hx => (hts _ hx).2
      known := fun {c t} hk => by rwa [composites, IsLive, redirects, row]
      flat := fun ht hs => by
        rw [outside ht] at hs
        cases hs
      placeholders := fun hp => placeholders ▸ hp
      placeholder := fun ht hs => by
        rw [outside ht] at hs
        cases hs
      named := fun hn => .inl (byBinaryName ▸ hn) }
  refine h.add adds (Notes.foldl fun u x hx hr hs => ?_)
  split
  next =>
    refine Notes.note ?_ ?_ fun y hy => absurd hy (hm y)
    · exact (congrArg (·[x]?) (hr.trans redirects)).trans (hts x hx).1
    · exact hs ▸ types ▸ (hts x hx).2
  next hp =>
    refine Notes.refl _ _ fun y hy => ?_
    rw [List.mem_singleton.mp hy]
    exact Bool.not_eq_true _ ▸ hp

/-- A field is added. -/
def recordField (e : FieldEntry) : Lookup FieldId := do
  let id ← addField e
  noteMember (.field id) [e.type]
  return id

/-- A method is added. -/
def recordMethod (e : MethodEntry) : Lookup MethodId := do
  let id ← addMethod e
  noteMember (.method id) (e.result :: e.params ++ e.throws)
  return id

theorem getD_push_of_ne {α : Type} {xs : Array α} {x a : α} {i : Nat} (hi : i ≠ xs.size) :
    (xs.push x).getD i a = xs.getD i a := by
  rw [Array.getD_eq_getD_getElem?, Array.getD_eq_getD_getElem?, Array.getElem?_push, if_neg hi]

theorem getD_push_self {α : Type} {xs : Array α} {x a : α} : (xs.push x).getD xs.size a = x := by
  rw [Array.getD_eq_getD_getElem?, Array.getElem?_push_size, Option.getD_some]

theorem recordField_canonical {e : FieldEntry} {id : FieldId} (hrun : recordField e w = .ok id w')
    (h : w.Canonical) (he : w.IsLive e.type ∧ e.type.index < w.types.size) : w'.Canonical := by
  obtain ⟨i, v, hadd, hrun⟩ := bind_ok hrun
  obtain ⟨⟨⟩, u, hnote, hrun⟩ := bind_ok hrun
  cases hrun
  cases hadd
  refine noteMember_canonical hnote h rfl nofun (by simpa using he) ?_ fun {n} hn => ?_
  · change [(Array.getD (w.fields.push _) w.fields.size {}).type] = [e.type]
    rw [getD_push_self]
    split <;> rfl
  · cases n with
    | field f =>
      change [(Array.getD (w.fields.push _) f.index {}).type] = [(w.fields.getD f.index {}).type]
      rw [getD_push_of_ne]
      rintro hf
      exact hn (by rw [← hf])
    | _ => rfl

theorem recordMethod_canonical {e : MethodEntry} {id : MethodId}
    (hrun : recordMethod e w = .ok id w') (h : w.Canonical)
    (he : ∀ x ∈ e.result :: e.params ++ e.throws, w.IsLive x ∧ x.index < w.types.size) :
    w'.Canonical := by
  obtain ⟨i, v, hadd, hrun⟩ := bind_ok hrun
  obtain ⟨⟨⟩, u, hnote, hrun⟩ := bind_ok hrun
  cases hrun
  cases hadd
  refine noteMember_canonical hnote h rfl nofun he ?_ fun {n} hn => ?_
  · simp only [mentioned, getD_push_self]
    split <;> rfl
  · cases n with
    | method f =>
      simp only [mentioned]
      rw [getD_push_of_ne]
      rintro hf
      exact hn (by rw [← hf])
    | _ => rfl

end Lookup

end Javelin
