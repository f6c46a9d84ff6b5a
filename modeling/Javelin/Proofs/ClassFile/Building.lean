import Javelin.ClassFile.Builder
import Javelin.Proofs.ClassFile.RoundTrip

/-!
# Building only adds

Whatever is built, the entries of the pool stay where they are (`Grown`), so an index that was given
for an entry leads to it in the finished class (`add_get`).
-/

namespace Javelin.ClassFile

variable {α β : Type}

/-! ## Pools that grow -/

/-- Every index of `p` leads to the same entry in `q`. -/
def Pool.Within (p q : Pool) : Prop := p.entries.toList <+: q.entries.toList

namespace Pool

variable {p q r : Pool} {i : UInt16}

theorem Within.refl (p : Pool) : p.Within p := List.prefix_refl _

theorem Within.trans (h : p.Within q) (h' : q.Within r) : p.Within r := List.IsPrefix.trans h h'

theorem get?_eq (p : Pool) {i : UInt16} (h : i ≠ 0) :
    p.get? i = (p.entries.toList[i.toNat - 1]?).join := by
  rw [get?, if_neg (by simpa using h), Array.getElem?_toList]

theorem ne_zero_of_get? {e : Entry} (h : p.get? i = some e) : i ≠ 0 := by
  rintro rfl
  cases h

theorem Within.get? {e : Entry} (h : p.Within q) (he : p.get? i = some e) : q.get? i = some e := by
  have hi := ne_zero_of_get? he
  obtain ⟨more, hq⟩ := h
  rw [get?_eq p hi, Option.join_eq_some_iff] at he
  rw [get?_eq q hi, ← hq, List.getElem?_append_left, he]
  · rfl
  · exact (List.getElem?_eq_some_iff.1 he).1

end Pool

namespace Builder

/-- The table of indices tells the truth. -/
def Sound (b : Builder) : Prop :=
  ∀ e i, b.index.get? e = some i → b.file.pool.get? i = some e

/-- The pool has no entry twice and no more places than it may have, and the only empty ones are
those behind wide entries. -/
structure Exact (b : Builder) : Prop where
  indexed : ∀ e i, b.file.pool.get? i = some e → b.index.get? e = some i
  slotted : Slotted b.file.pool.entries.toList
  size : b.file.pool.entries.size < 65535

/-- What later states of a builder keep. -/
structure Grown (b b' : Builder) : Prop where
  sound : b.Sound → b'.Sound
  exact : b.Exact → b'.Exact
  pool : b.file.pool.Within b'.file.pool
  fields : b.file.fields <+: b'.file.fields
  fault : b'.fault = none → b.fault = none

theorem Grown.refl (b : Builder) : Grown b b := ⟨id, id, .refl _, List.prefix_refl _, id⟩

theorem Grown.trans {b b' b'' : Builder} (h : Grown b b') (h' : Grown b' b'') : Grown b b'' :=
  ⟨h'.sound ∘ h.sound, h'.exact ∘ h.exact, h.pool.trans h'.pool, h.fields.trans h'.fields,
    h.fault ∘ h'.fault⟩

theorem grown_fail (f : BuildFault) (b : Builder) : Grown b ((fail f).run b).2 :=
  ⟨id, fun h => ⟨h.indexed, h.slotted, h.size⟩, .refl _, List.prefix_refl _, nofun⟩

/-- An entry behind all others. -/
theorem get?_push {p : Pool} {e : Entry} (more : Array (Option Entry))
    (h : p.entries.size + 1 < 65536) :
    Pool.get? ⟨p.entries.push (some e) ++ more⟩ (p.entries.size + 1).toUInt16 = some e := by
  have hi : (p.entries.size + 1).toUInt16.toNat = p.entries.size + 1 := Nat.mod_eq_of_lt h
  have hne : (p.entries.size + 1).toUInt16 ≠ 0 := by
    rw [ne_eq, ← UInt16.toNat_inj, hi]
    exact Nat.succ_ne_zero _
  rw [Pool.get?_eq _ hne, hi]
  simp

/-- An entry that is there is not added again. -/
theorem add_hit {e : Entry} {i : UInt16} {b : Builder} (h : b.index.get? e = some i) :
    (add e).run b = (i, b) := by
  simp only [add, StateT.run_bind, StateT.run_get, pure_bind, h]
  rfl

/-- What adding an entry does. -/
theorem add_cases (e : Entry) (b : Builder) :
    (∃ i, b.index.get? e = some i ∧ (add e).run b = (i, b)) ∨
    (∃ f, 65535 ≤ b.file.pool.entries.size + e.slots ∧ (add e).run b = (0, ((fail f).run b).2)) ∨
    (b.index.get? e = none ∧ b.file.pool.entries.size + e.slots < 65535 ∧
      (add e).run b = ((b.file.pool.entries.size + 1).toUInt16,
        { b with
          file := { b.file with pool :=
            ⟨b.file.pool.entries.push (some e) ++ Array.replicate (e.slots - 1) none⟩ }
          index := b.index.insert e (b.file.pool.entries.size + 1).toUInt16 })) := by
  cases hget : b.index.get? e with
  | some i => exact .inl ⟨i, rfl, add_hit hget⟩
  | none =>
    by_cases hfull : 65535 ≤ b.file.pool.entries.size + e.slots
    · refine .inr (.inl ⟨.poolOverflow b.file.name, hfull, ?_⟩)
      simp only [add, StateT.run_bind, StateT.run_get, pure_bind, hget, if_pos hfull]
      rfl
    · refine .inr (.inr ⟨rfl, by omega, ?_⟩)
      simp only [add, StateT.run_bind, StateT.run_get, pure_bind, hget, if_neg hfull]
      obtain hone | htwo : e.slots = 1 ∨ e.slots = 2 := by have := slots_bounds e; omega
      · rw [hone]
        rfl
      · rw [htwo]
        rfl

/-- A wide entry takes the place behind it too. -/
theorem Slotted.snoc {es : List (Option Entry)} (h : Slotted es) (e : Entry) :
    Slotted (es ++ some e :: List.replicate (e.slots - 1) none) := by
  induction h with
  | nil => simpa using Slotted.cons e .nil
  | cons e' _ ih => simpa using Slotted.cons e' ih

/-- What stands in a pool behind which an entry was put. -/
theorem get?_pushed {p : Pool} {e e' : Entry} {i : UInt16} {n : Nat}
    (h : Pool.get? ⟨p.entries.push (some e) ++ Array.replicate n none⟩ i = some e') :
    p.get? i = some e' ∨ e' = e ∧ i.toNat = p.entries.size + 1 := by
  have hi := Pool.ne_zero_of_get? h
  have hpos : i.toNat ≠ 0 := fun hzero => hi (UInt16.toNat_inj.1 hzero)
  have hlength : p.entries.toList.length = p.entries.size := Array.length_toList
  rw [Pool.get?_eq _ hi, Option.join_eq_some_iff] at h ⊢
  simp only [Array.toList_append, Array.toList_push, List.append_assoc] at h
  rcases Nat.lt_trichotomy (i.toNat - 1) p.entries.toList.length with hlt | heq | hgt
  · exact .inl (by rwa [List.getElem?_append_left hlt] at h)
  · rw [heq] at h
    simp at h
    exact .inr ⟨h.symm, by omega⟩
  · rw [List.getElem?_append_right (by omega), List.getElem?_append_right (by simp; omega)] at h
    simp [List.getElem?_replicate] at h

/-- Adding an entry adds it once. -/
theorem exact_push {e : Entry} {b : Builder} (h : b.Exact) (hmiss : b.index.get? e = none)
    (hsize : b.file.pool.entries.size + e.slots < 65535) : Exact { b with
      file := { b.file with pool :=
        ⟨b.file.pool.entries.push (some e) ++ Array.replicate (e.slots - 1) none⟩ }
      index := b.index.insert e (b.file.pool.entries.size + 1).toUInt16 } where
  indexed := by
    intro e' i hi
    rw [Std.HashMap.get?_insert]
    obtain hold | ⟨rfl, hnew⟩ := get?_pushed hi
    · have hindexed := h.indexed e' i hold
      rw [if_neg, hindexed]
      intro heq
      rw [← eq_of_beq heq, hmiss] at hindexed
      cases hindexed
    · rw [if_pos (beq_self_eq_true _), ← hnew, Nat.toUInt16_eq, UInt16.ofNat_toNat]
  slotted := by
    have := Slotted.snoc h.slotted e
    simpa using this
  size := by
    have hbound := slots_bounds e
    simp
    omega

theorem grown_add (e : Entry) (b : Builder) : Grown b ((add e).run b).2 := by
  obtain ⟨i, _, h⟩ | ⟨f, -, h⟩ | ⟨hmiss, hsize, h⟩ := add_cases e b
  · rw [h]
    exact .refl b
  · rw [h]
    exact grown_fail f b
  · rw [h]
    have hpool : b.file.pool.Within
        ⟨b.file.pool.entries.push (some e) ++ Array.replicate (e.slots - 1) none⟩ := by
      simp [Pool.Within]
    refine ⟨fun hb e' i' hi' => ?_, fun hb => exact_push hb hmiss hsize, hpool,
      List.prefix_refl _, id⟩
    rw [Std.HashMap.get?_insert] at hi'
    split at hi'
    next he =>
      cases hi'
      obtain rfl := eq_of_beq he
      exact get?_push _ (by have := slots_bounds e; omega)
    next => exact hpool.get? (hb e' i' hi')

/-- The index of an entry leads to it. -/
theorem add_get {e : Entry} {b : Builder} (hb : b.Sound) (hfault : ((add e).run b).2.fault = none) :
    ((add e).run b).2.file.pool.get? ((add e).run b).1 = some e := by
  obtain ⟨i, hi, h⟩ | ⟨f, -, h⟩ | ⟨-, hsize, h⟩ := add_cases e b
  · rw [h]
    exact hb e i hi
  · rw [h] at hfault
    cases hfault
  · rw [h]
    exact get?_push _ (by have := slots_bounds e; omega)

/-! ## Actions -/

/-- Whatever is there, the action adds to it. -/
def Adds (m : Build α) : Prop := ∀ b, Grown b (m.run b).2

theorem adds_pure (a : α) : Adds (pure a) := .refl

theorem Adds.bind {m : Build α} {f : α → Build β} (hm : Adds m) (hf : ∀ a, Adds (f a)) :
    Adds (m >>= f) := fun b => (hm b).trans (hf (m.run b).1 (m.run b).2)

theorem adds_modifyFile {f : ClassFile → ClassFile}
    (h : ∀ c, (f c).pool = c.pool ∧ c.fields <+: (f c).fields) : Adds (modifyFile f) := by
  intro b
  obtain ⟨hpool, hfields⟩ := h b.file
  refine ⟨fun hb e i hi => ?_, fun hb => ⟨?_, ?_, ?_⟩, ?_, hfields, id⟩
  · exact hpool ▸ hb e i hi
  · exact hpool ▸ hb.indexed
  · exact hpool ▸ hb.slotted
  · exact hpool ▸ hb.size
  · exact (show ((modifyFile f).run b).2.file.pool = _ from hpool) ▸ .refl _

theorem adds_get : Adds get := .refl

theorem adds_utf8 (t : Text) : Adds (utf8 t) := grown_add _

theorem adds_cls (t : Text) : Adds (cls t) := (adds_utf8 t).bind fun _ => grown_add _

theorem adds_string (t : Text) : Adds (string t) := (adds_utf8 t).bind fun _ => grown_add _

theorem adds_attributeOf (name bytes : Text) : Adds (attributeOf name bytes) := by
  refine (adds_utf8 name).bind fun n => adds_get.bind fun b => ?_
  split
  · exact adds_pure _
  · exact Adds.bind (grown_fail _) fun _ => adds_pure _

theorem adds_mapM {m : α → Build β} (h : ∀ a, Adds (m a)) (as : List α) : Adds (as.mapM m) := by
  induction as with
  | nil => exact adds_pure []
  | cons a as ih =>
    rw [List.mapM_cons]
    exact (h a).bind fun _ => ih.bind fun _ => adds_pure _

theorem adds_foldlM {m : β → α → Build β} (h : ∀ b a, Adds (m b a)) (as : List α) (b : β) :
    Adds (as.foldlM m b) := by
  induction as generalizing b with
  | nil => exact adds_pure b
  | cons a as ih => exact (h b a).bind ih

theorem adds_ite {c : Prop} [Decidable c] {m n : Build α} (hm : Adds m) (hn : Adds n) :
    Adds (if c then m else n) := by
  split
  · exact hm
  · exact hn

/-- The action on each of some things. -/
abbrev each (m : α → Build Unit) (as : Array α) : Build PUnit :=
  forIn as PUnit.unit fun a _ => do m a; pure (.yield PUnit.unit)

theorem run_each {m : α → Build Unit} {P : Builder → Builder → List α → Prop}
    (hnil : ∀ b, P b b [])
    (hcons : ∀ a as b b', P ((m a).run b).2 b' as → P b b' (a :: as)) (as : Array α) (b : Builder) :
    P b ((each m as).run b).2 as.toList := by
  unfold each
  rw [← Array.forIn_toList]
  generalize as.toList = as
  induction as generalizing b with
  | nil => exact hnil b
  | cons a as ih =>
    rw [List.forIn_cons]
    exact hcons a as b _ (ih _)

theorem adds_each {m : α → Build Unit} (h : ∀ a, Adds (m a)) (as : Array α) : Adds (each m as) :=
  run_each (P := fun b b' _ => Grown b b') .refl (fun a _ b _ => (h a b).trans) as

/-- What each step ensures holds in the end. -/
theorem each_ensures {m : α → Build Unit} (h : ∀ a, Adds (m a)) {P : α → Builder → Prop}
    (hstep : ∀ a b, b.Sound → P a ((m a).run b).2)
    (hkeep : ∀ a b b', Grown b b' → P a b → P a b') (as : Array α) {b : Builder} (hb : b.Sound) :
    ∀ a ∈ as, P a ((each m as).run b).2 := by
  have hall := run_each
    (P := fun b b' as => Grown b b' ∧ (b.Sound → ∀ a ∈ as, P a b')) (m := m)
    (fun b => ⟨.refl b, nofun⟩)
    (fun a as b b' ⟨hgrown, hrest⟩ => ⟨(h a b).trans hgrown, fun hb => List.forall_mem_cons.2
      ⟨hkeep a _ _ hgrown (hstep a b hb), hrest ((h a b).sound hb)⟩⟩) as b
  exact fun a ha => hall.2 hb a (Array.mem_toList_iff.2 ha)

theorem adds_memberOf (flags : AccessFlags) (name descriptor : Text) (as : List Attribute) :
    Adds (memberOf flags name descriptor as) :=
  (adds_utf8 name).bind fun _ => (adds_utf8 descriptor).bind fun _ => adds_pure _

theorem adds_addField (flags : AccessFlags) (name descriptor : Text) (as : List Attribute) :
    Adds (addField flags name descriptor as) :=
  (adds_memberOf flags name descriptor as).bind fun _ =>
    adds_modifyFile fun _ => ⟨rfl, List.prefix_append _ _⟩

theorem adds_addMethod (flags : AccessFlags) (name descriptor : Text) (as : List Attribute) :
    Adds (addMethod flags name descriptor as) :=
  (adds_memberOf flags name descriptor as).bind fun _ =>
    adds_modifyFile fun _ => ⟨rfl, List.prefix_refl _⟩

theorem adds_addAttribute (a : Attribute) : Adds (addAttribute a) :=
  adds_modifyFile fun _ => ⟨rfl, List.prefix_refl _⟩

theorem adds_signature (t : Text) : Adds (signature t) :=
  (adds_utf8 t).bind fun _ => adds_attributeOf _ _

theorem adds_sourceFile (t : Text) : Adds (sourceFile t) :=
  (adds_utf8 t).bind fun _ => adds_attributeOf _ _

theorem adds_innerClassBytes (out : Text) (c : InnerClass) : Adds (innerClassBytes out c) := by
  refine (adds_cls _).bind fun inner => ?_
  have hsimple (outer : UInt16) : Adds (do
      let simple ← if c.simpleName.isEmpty then pure 0 else utf8 c.simpleName
      return (((out.pushU2 inner).pushU2 outer).pushU2 simple).pushU2 c.flags.bits) :=
    adds_ite ((adds_pure _).bind fun _ => adds_pure _) ((adds_utf8 _).bind fun _ => adds_pure _)
  exact adds_ite ((adds_pure _).bind hsimple) ((adds_cls _).bind hsimple)

theorem adds_innerClasses (cs : List InnerClass) : Adds (innerClasses cs) :=
  (adds_foldlM adds_innerClassBytes cs _).bind fun _ => adds_attributeOf _ _

/-! ## What indices lead to -/

theorem utf8_get {t : Text} {b : Builder} (hb : b.Sound) (hfault : ((utf8 t).run b).2.fault = none) :
    ((utf8 t).run b).2.file.pool.get? ((utf8 t).run b).1 = some (.utf8 t) :=
  add_get hb hfault

theorem attributeOf_run {name bytes : Text} {n : UInt16} {b b' : Builder}
    (h : (utf8 name).run b = (n, b')) : (attributeOf name bytes).run b =
      (match decode b'.file.pool n bytes with
      | .ok body => pure ⟨n, bytes, body⟩
      | .error t => do
        fail (.truncated t)
        return ⟨n, bytes, .other⟩ : Build Attribute).run b' := by
  unfold attributeOf
  rw [StateT.run_bind, h]
  rfl

theorem attributeOf_spec {name bytes : Text} {b : Builder} (hb : b.Sound)
    (hfault : ((attributeOf name bytes).run b).2.fault = none) :
    ∃ n body, ((attributeOf name bytes).run b).1 = ⟨n, bytes, body⟩ ∧
      ((attributeOf name bytes).run b).2.file.pool.get? n = some (.utf8 name) ∧
      decode ((attributeOf name bytes).run b).2.file.pool n bytes = .ok body := by
  have hget := utf8_get hb (t := name)
  obtain ⟨n, b', hname⟩ : ∃ n b', (utf8 name).run b = (n, b') := ⟨_, _, rfl⟩
  rw [hname] at hget
  rw [attributeOf_run hname] at hfault ⊢
  cases hbody : decode b'.file.pool n bytes with
  | ok body =>
    rw [hbody] at hfault
    exact ⟨n, body, rfl, hget hfault, hbody⟩
  | error t =>
    rw [hbody] at hfault
    cases hfault

/-- The builder has a field with a name, a descriptor and attributes, unless there is a fault. -/
def HasField (name descriptor : Text) (as : List Attribute) (b : Builder) : Prop :=
  b.fault = none → ∃ m ∈ b.file.fields, m.attributes = as ∧
    b.file.pool.get? m.name = some (.utf8 name) ∧
    b.file.pool.get? m.descriptor = some (.utf8 descriptor)

theorem HasField.grow {name descriptor : Text} {as : List Attribute} {b b' : Builder}
    (h : HasField name descriptor as b) (hgrown : Grown b b') : HasField name descriptor as b' := by
  intro hfault
  obtain ⟨m, hm, has, hname, hdescriptor⟩ := h (hgrown.fault hfault)
  exact ⟨m, hgrown.fields.subset hm, has, hgrown.pool.get? hname, hgrown.pool.get? hdescriptor⟩

theorem addField_run {flags : AccessFlags} {name descriptor : Text} {as : List Attribute}
    {n d : UInt16} {b b₁ b₂ : Builder} (hname : (utf8 name).run b = (n, b₁))
    (hdescriptor : (utf8 descriptor).run b₁ = (d, b₂)) :
    (addField flags name descriptor as).run b =
      ((), { b₂ with file :=
        { b₂.file with fields := b₂.file.fields ++ [⟨flags, n, d, as⟩] } }) := by
  obtain ⟨rfl, rfl⟩ := Prod.mk.inj hname.symm
  obtain ⟨rfl, rfl⟩ := Prod.mk.inj hdescriptor.symm
  rfl

theorem hasField_addField (flags : AccessFlags) (name descriptor : Text) (as : List Attribute)
    {b : Builder} (hb : b.Sound) :
    HasField name descriptor as ((addField flags name descriptor as).run b).2 := by
  have hgrown := adds_utf8 descriptor ((utf8 name).run b).2
  rw [addField_run rfl rfl]
  intro hfault
  refine ⟨_, List.mem_append_right _ List.mem_cons_self, rfl, ?_, ?_⟩
  · exact hgrown.pool.get? (utf8_get hb (hgrown.fault hfault))
  · exact utf8_get ((adds_utf8 name b).sound hb) hfault

end Builder

end Javelin.ClassFile
