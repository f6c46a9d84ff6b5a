import Javelin.Emit.Classes
import Javelin.Types.FromClass
import Javelin.Proofs.ClassFile.Building
import Javelin.Proofs.ClassFile.RoundTrip
import Javelin.Proofs.Types.Questions

/-!
# Constant fields in class files

The value of a constant field is kept in the pool of its class, where integers of all widths and
booleans become `int`s, and read back by the descriptor of the field.
-/

namespace Javelin

/-! ## Constants in pools -/

namespace Constant

/-- The descriptor of the fields with a constant of this type. -/
def descriptor (c : Constant) : Text :=
  (c.type.letter?.map Text.singleton).getD "Ljava/lang/String;"

/-- What a pool keeps of a constant. -/
def stored : Constant → Constant
  | .long n => .long n
  | .float b => .float b
  | .double b => .double b
  | .string t => .string t
  | c => .int c.asInt

/-- The NaNs of constants are quiet. -/
def IsQuiet (c : Constant) : Prop := ∀ b, c = .float b → ofFloatBits b = .float b

/-- A constant comes back from its pool unless it is `true`. -/
theorem ofPool_stored_iff {c : Constant} (h : c.IsQuiet) :
    c.stored.ofPool c.descriptor = c ↔ c ≠ .boolean true := by
  cases c with
  | boolean b => cases b <;> decide
  | byte v =>
    have hv : (Int32.ofInt v.toInt).toInt8 = v := by rw [Int32.toInt8_ofInt, Int8.ofInt_toInt]
    exact iff_of_true (congrArg byte hv) nofun
  | char u =>
    have hu : (Int32.ofInt u.toNat).toInt16.toUInt16 = u := by
      rw [Int32.toInt16_ofInt, Int16.ofInt_eq_ofNat, ← UInt16.toInt16_ofNat', UInt16.ofNat_toNat,
        UInt16.toUInt16_toInt16]
    exact iff_of_true (congrArg char hu) nofun
  | short v =>
    have hv : (Int32.ofInt v.toInt).toInt16 = v := by rw [Int32.toInt16_ofInt, Int16.ofInt_toInt]
    exact iff_of_true (congrArg short hv) nofun
  | float b => exact iff_of_true (h b rfl) nofun
  | _ => exact iff_of_true rfl nofun

end Constant

namespace ClassFile

namespace Pool

/-- The index leads to what the pool keeps of a constant. -/
def Keeps (p : Pool) (i : UInt16) : Constant → Prop
  | .long n => p.get? i = some (.long n)
  | .float b => p.get? i = some (.float b)
  | .double b => p.get? i = some (.double b)
  | .string t => ∃ j, p.get? i = some (.string j) ∧ p.get? j = some (.utf8 t)
  | c => p.get? i = some (.integer c.asInt)

theorem Within.keeps {p q : Pool} {i : UInt16} {c : Constant} (h : p.Within q) (hc : p.Keeps i c) :
    q.Keeps i c := by
  cases c with
  | string t => exact hc.imp fun j hj => ⟨h.get? hj.1, h.get? hj.2⟩
  | _ => exact h.get? hc

theorem loadable_of_keeps {p : Pool} {i : UInt16} {c : Constant} (h : p.Keeps i c) :
    p.loadable i = .ok c.stored := by
  cases c with
  | string t =>
    obtain ⟨j, hi, hj⟩ := h
    simp only [loadable, hi, utf8, hj, Constant.stored]
  | _ =>
    simp only [Keeps] at h
    simp only [loadable, h, Constant.stored]

end Pool

/-- The attribute is the value of a field with a constant. -/
structure Attribute.IsValue (p : Pool) (a : Attribute) (c : Constant) : Prop where
  name : p.get? a.name = some (.utf8 "ConstantValue")
  value : ∃ i, a.body = .index i ∧ p.Keeps i c

theorem Attribute.IsValue.grow {p q : Pool} {a : Attribute} {c : Constant} (h : a.IsValue p c)
    (hpq : p.Within q) : a.IsValue q c :=
  ⟨hpq.get? h.name, h.value.imp fun _ hi => ⟨hi.1, hpq.keeps hi.2⟩⟩

theorem Member.constantValue?_of_isValue {p : Pool} {m : Member} {a : Attribute} {c : Constant}
    {rest : List Attribute} (hm : m.attributes = a :: rest) (h : a.IsValue p c) :
    m.constantValue? p = some c.stored := by
  obtain ⟨name, bytes, body⟩ := a
  obtain ⟨hname, i, rfl, hi⟩ := h
  have hutf8 : p.utf8 name = "ConstantValue" := by simp only [Pool.utf8, hname]
  simp only [constantValue?, indexOf?, findAttribute?, hm, List.find?_cons, hutf8, beq_self_eq_true,
    Option.bind_some, Pool.loadable_of_keeps hi]
  rfl

namespace Builder

/-- The entry of a constant. -/
def constant (c : Constant) : Build UInt16 :=
  match c with
  | .long n => long n
  | .float b => float b
  | .double b => double b
  | .string t => string t
  | c => integer c.asInt

theorem adds_constant (c : Constant) : Adds (constant c) := by
  cases c with
  | string t => exact adds_string t
  | _ => exact grown_add _

theorem constant_keeps {c : Constant} {b : Builder} (hb : b.Sound)
    (hfault : ((constant c).run b).2.fault = none) :
    ((constant c).run b).2.file.pool.Keeps ((constant c).run b).1 c := by
  cases c with
  | string t =>
    have hgrown := grown_add (.string ((utf8 t).run b).1) ((utf8 t).run b).2
    have htext := add_get hb (hgrown.fault hfault)
    exact ⟨_, add_get ((adds_utf8 t b).sound hb) hfault, hgrown.pool.get? htext⟩
  | _ => exact add_get hb hfault

theorem decode_constantValue {p : Pool} {n : UInt16} (h : p.utf8 n = "ConstantValue") (i : UInt16) :
    decode p n (indexBytes i) = .ok (.index i) := by
  have hname : ("ConstantValue" : Text).toString? = some "ConstantValue" := by decide
  have hread : readBody bodyU2 "ConstantValue" (indexBytes i) = .ok i :=
    congrArg Except.ok (joinU2 i)
  unfold decode
  simp only [h, hname, Option.getD_some, hread]
  rfl

/-- The attribute of a constant field. -/
theorem isValue_constantValue {c : Constant} {i : UInt16} {b : Builder} (hb : b.Sound)
    (hi : b.file.pool.Keeps i c) (hfault : ((constantValue i).run b).2.fault = none) :
    ((constantValue i).run b).1.IsValue ((constantValue i).run b).2.file.pool c := by
  obtain ⟨n, body, ha, hname, hbody⟩ := attributeOf_spec hb hfault
  have hgrown := adds_attributeOf "ConstantValue" (indexBytes i) b
  rw [decode_constantValue (by rw [Pool.utf8, hname])] at hbody
  cases hbody
  unfold constantValue
  rw [ha]
  exact ⟨hname, i, rfl, hgrown.pool.keeps hi⟩

end Builder

end ClassFile

/-! ## Steps of code generation -/

namespace Emit

open ClassFile ClassFile.Builder Run

section

variable {α β : Type}

/-- The step asks about the program and leaves the classes as they are. -/
def Asks (m : Emitting α) : Prop := ∀ s a s', m s = .ok a s' → ∃ w, s' = { s with world := w }

theorem asks_pure (a : α) : Asks (pure a) := by
  rintro s _ _ ⟨⟩
  exact ⟨s.world, rfl⟩

theorem Asks.bind {m : Emitting α} {f : α → Emitting β} (hm : Asks m) (hf : ∀ a, Asks (f a)) :
    Asks (m >>= f) := by
  intro s b s' h
  obtain ⟨a, t, ha, hb⟩ := bind_ok h
  obtain ⟨w, rfl⟩ := hm s a t ha
  obtain ⟨w', rfl⟩ := hf a _ b s' hb
  exact ⟨w', rfl⟩

theorem asks_lookup (q : Lookup α) : Asks (liftM q : Emitting α) := by
  intro s a s' h
  change ofLookup q s = _ at h
  unfold ofLookup at h
  dsimp only at h
  split at h
  · cases h
    exact ⟨_, rfl⟩
  · cases h

theorem lookup_run {q : Lookup α} {s : Emission} {a : α} {w : World} (h : q s.world = .ok a w) :
    (liftM q : Emitting α) s = .ok a { s with world := w } := by
  change ofLookup q s = _
  simp only [ofLookup, h]

theorem asks_ite {c : Prop} [Decidable c] {m n : Emitting α} (hm : Asks m) (hn : Asks n) :
    Asks (if c then m else n) := by
  split
  · exact hm
  · exact hn

theorem asks_mapM {m : α → Emitting β} (h : ∀ a, Asks (m a)) (as : List α) : Asks (as.mapM m) := by
  induction as with
  | nil => exact asks_pure []
  | cons a as ih =>
    rw [List.mapM_cons]
    exact (h a).bind fun _ => ih.bind fun _ => asks_pure _

/-- The builder of a class. -/
def builderOf (s : Emission) (i : ClassId) : Builder := s.builders.getD i default

theorem buildIn_run {i : ClassId} {m : Build α} {s : Emission} {a : α} {b : Builder}
    (h : m.run (builderOf s i) = (a, b)) :
    buildIn i m s = .ok a { s with builders := s.builders.setIfInBounds i b } := by
  unfold buildIn
  dsimp only
  rw [show m.run (s.builders.getD i default) = _ from h]
  simp

theorem buildIn_ok {i : ClassId} {m : Build α} {s s' : Emission} {a : α}
    (h : buildIn i m s = .ok a s') : a = (m.run (builderOf s i)).1 ∧
      s' = { s with builders := s.builders.setIfInBounds i (m.run (builderOf s i)).2 } := by
  have hrun : m.run (builderOf s i) =
    ((m.run (builderOf s i)).1, (m.run (builderOf s i)).2) := rfl
  rw [buildIn_run hrun] at h
  cases h
  exact ⟨rfl, rfl⟩

theorem builderOf_buildIn {i : ClassId} {m : Build α} {s s' : Emission} {a : α}
    (h : buildIn i m s = .ok a s') (hi : i < s.builders.size) :
    builderOf s' i = (m.run (builderOf s i)).2 := by
  obtain ⟨_, rfl⟩ := buildIn_ok h
  simp [builderOf, hi]

/-- How a later state relates to an earlier one if only builders were added to. -/
structure Built (i : ClassId) (s s' : Emission) : Prop where
  grown : Grown (builderOf s i) (builderOf s' i)
  size : s'.builders.size = s.builders.size
  classes : s'.classes = s.classes

theorem Built.trans {i : ClassId} {s s' s'' : Emission} (h : Built i s s') (h' : Built i s' s'') :
    Built i s s'' :=
  ⟨h.grown.trans h'.grown, h'.size.trans h.size, h'.classes.trans h.classes⟩

theorem Asks.built {m : Emitting α} (hm : Asks m) {s s' : Emission} {a : α} (h : m s = .ok a s')
    (i : ClassId) : Built i s s' := by
  obtain ⟨w, rfl⟩ := hm s a s' h
  exact ⟨.refl _, rfl, rfl⟩

theorem buildIn_built {i : ClassId} {m : Build α} (hm : Adds m) {s s' : Emission} {a : α}
    (h : buildIn i m s = .ok a s') (hi : i < s.builders.size) : Built i s s' := by
  have hgrown : Grown (builderOf s i) (builderOf s' i) := builderOf_buildIn h hi ▸ hm _
  obtain ⟨_, rfl⟩ := buildIn_ok h
  exact ⟨hgrown, Array.size_setIfInBounds, rfl⟩

end

theorem commonAttributes_built {i : ClassId} {signature : Text} {traits : Traits} {s s' : Emission}
    {as : List Attribute} (h : commonAttributes i signature traits s = .ok as s')
    (hi : i < s.builders.size) : Built i s s' := by
  have hold (generic : List Attribute) : Adds (do
      let old ← if traits.has .deprecated then do pure [← deprecated] else pure []
      return generic ++ old) :=
    adds_ite ((adds_attributeOf _ _).bind fun _ => (adds_pure _).bind fun _ => adds_pure _)
      ((adds_pure _).bind fun _ => adds_pure _)
  refine buildIn_built (adds_ite ?_ ?_) h hi
  · exact (adds_pure _).bind hold
  · exact (adds_signature _).bind fun _ => (adds_pure _).bind hold

theorem addField_ok {i : ClassId} {field : FieldId} {flags : AccessFlags} {name descriptor : Text}
    {attributes : List Attribute} {s s' : Emission}
    (h : addField i field flags name descriptor attributes s = .ok () s')
    (hi : i < s.classes.size) : (s'.classes.getD i default).fields =
      (s.classes.getD i default).fields.push { field, flags, name, descriptor, attributes } ∧
      s'.builders = s.builders := by
  cases h
  simp [hi, Array.getElem_modify]

theorem encode_ok {c : ClassDraft} {b : Builder} {o : Output} (h : encode c b = .ok o) :
    b.fault = none ∧ o.file = b.file ∧ b.file.toBytes = .ok o.bytes := by
  unfold encode at h
  dsimp only at h
  split at h
  · cases h
  · split at h
    · cases h
    · cases h
      exact ⟨‹_›, rfl, ‹_›⟩

/-- The fields of a draft are those of the assembled class. -/
theorem assemble_spec (c : ClassDraft) (usedFields : Std.HashSet FieldId)
    (usedMethods : Std.HashSet MethodId) (inner : List InnerClass) (file signature : Text)
    (isDeprecated : Bool) {b : Builder} (hb : b.Sound) :
    let b' := ((assemble c usedFields usedMethods inner file signature isDeprecated).run b).2
    Grown b b' ∧ ∀ r ∈ c.fields, HasField r.name r.descriptor r.attributes b' := by
  have hadds (f : MemberDraft) := adds_addField
    (widen (f.field.isSome && usedFields.contains f.field) f) f.name f.descriptor f.attributes
  have hattribute {m : Build Attribute} (hm : Adds m) {k : Build Unit} (hk : Adds k) (c : Bool) :
      Adds (if c then do addAttribute (← m); k else k) :=
    adds_ite (hm.bind fun _ => (adds_addAttribute _).bind fun _ => hk) hk
  have hrest : Adds (do
      each (fun m => Builder.addMethod
        (widen (m.method.isSome && usedMethods.contains m.method) m) m.name m.descriptor
        m.attributes) c.methods
      if !inner.isEmpty then addAttribute (← Builder.innerClasses inner)
      if !file.isEmpty then addAttribute (← sourceFile (Path.base file))
      if !signature.isEmpty then addAttribute (← Builder.signature signature)
      if isDeprecated then addAttribute (← deprecated)) := by
    refine (adds_each (fun _ => adds_addMethod _ _ _ _) _).bind fun _ => ?_
    refine hattribute (adds_innerClasses inner) (hattribute (adds_sourceFile _)
      (hattribute (adds_signature _) ?_ _) _) _
    exact adds_ite ((adds_attributeOf _ _).bind fun _ => adds_addAttribute _) (adds_pure _)
  have hlast := hrest ((each (fun f => Builder.addField
    (widen (f.field.isSome && usedFields.contains f.field) f) f.name f.descriptor f.attributes)
    c.fields).run b).2
  refine ⟨(adds_each hadds c.fields b).trans hlast, fun r hr => ?_⟩
  exact (each_ensures hadds (P := fun r => HasField r.name r.descriptor r.attributes)
    (fun f b hb => hasField_addField _ f.name f.descriptor f.attributes hb)
    (fun _ _ _ hgrown h => h.grow hgrown) c.fields hb r hr).grow hlast

section

variable [Answers]

theorem asks_innerClass (t : TypeId) : Asks (innerClass t) := by
  refine (asks_lookup _).bind fun _ => asks_ite ?_ ?_
  · exact (asks_pure _).bind fun _ => asks_pure _
  · exact (asks_lookup _).bind fun _ => asks_pure _

theorem asks_innerClasses (c : ClassDraft) (isNested : Bool) : Asks (innerClasses c isNested) := by
  have hrest (own : List InnerClass) : Asks (do
      return own ++ (← (c.nested.filter (· != c.type)).mapM innerClass)) :=
    (asks_mapM asks_innerClass _).bind fun _ => asks_pure _
  refine asks_ite ?_ ?_
  · exact (asks_innerClass _).bind fun _ => (asks_pure _).bind hrest
  · exact (asks_pure _).bind hrest

/-- A constant field gets its value as the first attribute. -/
theorem declaredField_constant {i : ClassId} {f : FieldId} {s s' : Emission} {c : Constant}
    {w : World} (hb : (builderOf s i).Sound) (hi : i < s.builders.size) (hi' : i < s.classes.size)
    (hfinal : (s.world.fields.getD f.index {}).isStatic = true ∧
      (s.world.fields.getD f.index {}).isFinal = true)
    (hc : Lookup.fieldConstant f s.world = .ok (some c) w) (h : declaredField i f s = .ok () s') :
    Grown (builderOf s i) (builderOf s' i) ∧ ∃ r ∈ (s'.classes.getD i default).fields,
      r.name = (s.world.fields.getD f.index {}).name ∧ ∃ a rest, r.attributes = a :: rest ∧
      ((builderOf s' i).fault = none → a.IsValue (builderOf s' i).file.pool c) := by
  obtain ⟨e, s₁, he, h⟩ := bind_ok h
  cases he
  simp only [hfinal, Bool.and_self, if_true] at h
  obtain ⟨_, s₂, hconstant, h⟩ := bind_ok h
  rw [lookup_run hc] at hconstant
  cases hconstant
  obtain ⟨j, s₃, hentry, h⟩ := bind_ok h
  obtain ⟨a, s₄, hvalue, h⟩ := bind_ok h
  obtain ⟨_, _, hlist, h⟩ := bind_ok h
  cases hlist
  obtain ⟨signature, s₅, hsignature, h⟩ := bind_ok h
  obtain ⟨rest, s₆, hrest, h⟩ := bind_ok h
  obtain ⟨descriptor, s₇, hdescriptor, h⟩ := bind_ok h
  have hbuilt₃ := buildIn_built (adds_constant c) hentry hi
  have hi₃ : i < s₃.builders.size := hbuilt₃.size ▸ hi
  have hbuilt₄ := buildIn_built (adds_attributeOf _ _) hvalue hi₃
  have hi₄ : i < s₄.builders.size := hbuilt₄.size ▸ hi₃
  have hbuilt₅ := (asks_lookup _).built hsignature i
  have hbuilt₆ := commonAttributes_built hrest (hbuilt₅.size ▸ hi₄)
  have hbuilt₇ := (asks_lookup _).built hdescriptor i
  have hbuilt := hbuilt₅.trans (hbuilt₆.trans hbuilt₇)
  have hall := hbuilt₃.trans (hbuilt₄.trans hbuilt)
  have hi₇ : i < s₇.classes.size := hall.classes ▸ hi'
  have hkeeps (hfault : (builderOf s₃ i).fault = none) : (builderOf s₃ i).file.pool.Keeps j c := by
    rw [builderOf_buildIn hentry hi] at hfault ⊢
    rw [(buildIn_ok hentry).1]
    exact constant_keeps hb hfault
  have hisValue (hfault : (builderOf s₄ i).fault = none) :
      a.IsValue (builderOf s₄ i).file.pool c := by
    have hkeeps := hkeeps (hbuilt₄.grown.fault hfault)
    rw [builderOf_buildIn hvalue hi₃] at hfault ⊢
    rw [(buildIn_ok hvalue).1]
    exact isValue_constantValue (hbuilt₃.grown.sound hb) hkeeps hfault
  obtain ⟨hfields, hbuilders⟩ := addField_ok h hi₇
  rw [hfields, show builderOf s' i = builderOf s₇ i by rw [builderOf, hbuilders]; rfl]
  exact ⟨hall.grown, _, Array.mem_push_self, rfl, a, rest, rfl, fun hfault =>
    (hisValue (hbuilt.grown.fault hfault)).grow hbuilt.grown.pool⟩

theorem finishClass_ok {i : ClassId} {s s' : Emission} {o : Output}
    (h : finishClass i s = .ok (.ok o) s') (hb : (builderOf s i).Sound)
    (hi : i < s.builders.size) : ∃ b, Grown (builderOf s i) b ∧ b.fault = none ∧ o.file = b.file ∧
      b.file.toBytes = .ok o.bytes ∧ ∀ r ∈ (s.classes.getD i default).fields,
        HasField r.name r.descriptor r.attributes b := by
  obtain ⟨c, s₁, hdraft, h⟩ := bind_ok h
  cases hdraft
  obtain ⟨d, s₂, hshape, h⟩ := bind_ok h
  obtain ⟨_, _, hget, h⟩ := bind_ok h
  cases hget
  obtain ⟨inner, s₃, hinner, h⟩ := bind_ok h
  obtain ⟨signature, s₄, hsignature, h⟩ := bind_ok h
  obtain ⟨_, s₅, hassemble, h⟩ := bind_ok h
  obtain ⟨_, _, hget, h⟩ := bind_ok h
  cases hget
  have hbuilt : Built i s s₄ := ((asks_lookup _).built hshape i).trans
    (((asks_innerClasses _ _).built hinner i).trans ((asks_lookup _).built hsignature i))
  have hbuilder := builderOf_buildIn hassemble (hbuilt.size ▸ hi)
  obtain ⟨hgrown, hfields⟩ := assemble_spec (s.classes.getD i default) s₂.widenedFields
    s₂.widenedMethods inner s₂.unit.file signature (d.declaredD.traits.has .deprecated)
    (hbuilt.grown.sound hb)
  rw [← hbuilder] at hgrown hfields
  obtain ⟨hfault, hfile, hbytes⟩ := encode_ok (EStateM.Result.ok.inj h).1
  exact ⟨_, hbuilt.grown.trans hgrown, hfault, hfile, hbytes, hfields⟩

/-! ## From source to class file -/

/-- A later state in which the class has its fields still and its file was only added to. -/
structure Later (i : ClassId) (s s' : Emission) : Prop where
  grown : Grown (builderOf s i) (builderOf s' i)
  known : i < s'.builders.size
  fields : ∀ r ∈ (s.classes.getD i default).fields, r ∈ (s'.classes.getD i default).fields

/-- A constant field of a class that is written and read again has its constant, unless that is
`true`: the pool keeps a zero for all booleans. -/
theorem constantField_iff {i : ClassId} {f : FieldId} {s s₁ s₂ s₃ : Emission} {c : Constant}
    {w : World} {o : Output} (hb : (builderOf s i).Sound) (hi : i < s.builders.size)
    (hi' : i < s.classes.size)
    (hfinal : (s.world.fields.getD f.index {}).isStatic = true ∧
      (s.world.fields.getD f.index {}).isFinal = true)
    (hc : Lookup.fieldConstant f s.world = .ok (some c) w) (hquiet : c.IsQuiet)
    (hfield : declaredField i f s = .ok () s₁) (hlater : Later i s₁ s₂)
    (hfinish : finishClass i s₂ = .ok (.ok o) s₃) (hwell : o.file.WellFormed)
    (hfits : o.file.Fits) :
    ∃ g, ofBytes o.bytes = .ok g ∧ ∃ m ∈ g.fields,
      m.nameText g.pool = (s.world.fields.getD f.index {}).name ∧
      (m.descriptorText g.pool = c.descriptor →
        ((m.constantValue? g.pool).map (·.ofPool (m.descriptorText g.pool)) = some c ↔
          c ≠ .boolean true)) := by
  obtain ⟨hgrown, r, hr, hname, a, rest, hattributes, hvalue⟩ :=
    declaredField_constant hb hi hi' hfinal hc hfield
  have hb₂ := hlater.grown.sound (hgrown.sound hb)
  obtain ⟨b, hgrown', hfault, hfile, hbytes, hfields⟩ := finishClass_ok hfinish hb₂ hlater.known
  obtain ⟨m, hm, hm', hmname, hmdescriptor⟩ := hfields r (hlater.fields r hr) hfault
  have hlast := hlater.grown.trans hgrown'
  have hisValue := (hvalue (hlast.fault hfault)).grow hlast.pool
  have hkept : m.constantValue? b.file.pool = some c.stored :=
    Member.constantValue?_of_isValue (hm'.trans hattributes) hisValue
  rw [hfile] at hwell hfits
  refine ⟨b.file, ofBytes_toBytes hwell hfits hbytes, m, hm, ?_, fun hdescriptor => ?_⟩
  · rw [Member.nameText, Pool.utf8, hmname, hname]
  · rw [hdescriptor, hkept, Option.map_some, Option.some_inj]
    exact Constant.ofPool_stored_iff hquiet

end

/-! ## A class with the field `T` of value `true` -/

section

/-- A class with the entries for a field `T` of type boolean. -/
def sampleBuilder : Builder where
  file :=
    { pool := ⟨#[some (.utf8 "A"), some (.cls 1), some (.utf8 "ConstantValue"), some (.integer 0),
        some (.utf8 "T"), some (.utf8 "Z")]⟩
      thisClass := 2 }
  index := (((({} : Std.HashMap Entry UInt16).insert (.utf8 "ConstantValue") 3).insert (.integer 0)
    4).insert (.utf8 "T") 5).insert (.utf8 "Z") 6

theorem sound_sampleBuilder : sampleBuilder.Sound := by
  intro e i h
  simp only [sampleBuilder, Std.HashMap.get?_insert] at h
  repeat' split at h
  all_goals first | (rename_i he; obtain rfl := eq_of_beq he; cases h; rfl) | skip
  simp at h

theorem sample_hits : 
    (add (.utf8 "ConstantValue")).run sampleBuilder = (3, sampleBuilder) ∧
    (add (.integer 0)).run sampleBuilder = (4, sampleBuilder) ∧
    (add (.utf8 "T")).run sampleBuilder = (5, sampleBuilder) ∧
    (add (.utf8 "Z")).run sampleBuilder = (6, sampleBuilder) := by
  refine ⟨add_hit ?_, add_hit ?_, add_hit ?_, add_hit ?_⟩
  all_goals
    simp only [sampleBuilder, Std.HashMap.get?_insert]
    decide

/-- Answers for a program with one constant, `true`. -/
local instance sampleAnswers : Answers where
  ask q w :=
    match q with
    | .constant _ => .ok (some (.boolean true)) w
    | .supertypes _ => .ok () w
    | .erasure t => .ok t w
    | _ => .error default w

def sampleEmission : Emission where
  world :=
    { types := #[{}, { shape := .base .boolean }]
      fields := #[{}, { name := "T", traits := ⟨24⟩, type := Lookup.base .boolean }] }
  unit := default
  notes := default
  problems := []
  classes := #[default]
  builders := #[sampleBuilder]

abbrev sampleWorld : World := sampleEmission.world

theorem resolve_boolean :
    Lookup.resolve (Lookup.base .boolean) sampleWorld = .ok (Lookup.base .boolean) sampleWorld :=
  Lookup.resolve_ok Std.HashMap.getElem?_empty fun parts =>
    (nofun : Shape.base .boolean ≠ .unresolved parts false)

theorem resolve_none : Lookup.resolve .none sampleWorld = .ok .none sampleWorld :=
  Lookup.resolve_ok Std.HashMap.getElem?_empty fun parts =>
    (nofun : Shape.absent ≠ .unresolved parts false)

theorem shape_boolean :
    Lookup.shape (Lookup.base .boolean) sampleWorld = .ok (.base .boolean) sampleWorld :=
  bind_run resolve_boolean

theorem shape_none : Lookup.shape .none sampleWorld = .ok .absent sampleWorld :=
  bind_run resolve_none

theorem fieldSignature_sample :
    Lookup.fieldSignature (Lookup.base .boolean) sampleWorld = .ok {} sampleWorld := by
  have h : Lookup.isGenericType (Lookup.base .boolean) sampleWorld = .ok false sampleWorld :=
    bind_run shape_boolean
  exact bind_run h

theorem descriptor_sample :
    Lookup.descriptor (Lookup.base .boolean) sampleWorld = .ok "Z" sampleWorld := by
  exact bind_run shape_boolean

theorem classSignature_sample : Lookup.classSignature .none sampleWorld = .ok {} sampleWorld := by
  have hview : Lookup.view .none sampleWorld = .ok (.none, .absent) sampleWorld :=
    bind_run resolve_none
  have hgeneric : Lookup.isGenericType .none sampleWorld = .ok false sampleWorld :=
    bind_run shape_none
  unfold Lookup.classSignature
  rw [bind_run hview]
  have hneeded : Lookup.orElse (pure false) (Lookup.orElse (Lookup.isGenericType .none)
      (Lookup.anyM Lookup.isGenericType [])) sampleWorld = .ok false sampleWorld :=
    bind_run hgeneric
  exact bind_run hneeded

theorem buildIn_sample {α : Type} {m : Build α} {a : α}
    (h : m.run sampleBuilder = (a, sampleBuilder)) :
    buildIn 0 m sampleEmission = .ok a sampleEmission := buildIn_run h

theorem constant_sample : (constant (.boolean true)).run sampleBuilder = (4, sampleBuilder) :=
  sample_hits.2.1

theorem constantValue_sample : (constantValue 4).run sampleBuilder =
    (⟨3, indexBytes 4, .index 4⟩, sampleBuilder) := by
  have hname : (utf8 "ConstantValue").run sampleBuilder = (3, sampleBuilder) := sample_hits.1
  have hbody : decode sampleBuilder.file.pool 3 (indexBytes 4) = .ok (.index 4) :=
    decode_constantValue rfl 4
  unfold constantValue
  rw [attributeOf_run hname, hbody]
  rfl

def sampleMember : MemberDraft where
  field := ⟨1⟩
  flags := memberFlags ⟨24⟩
  name := "T"
  descriptor := "Z"
  attributes := [⟨3, indexBytes 4, .index 4⟩]

def sampleDraft : ClassDraft := { (default : ClassDraft) with fields := #[sampleMember] }

def sampleField : FieldEntry := { name := "T", traits := ⟨24⟩, type := Lookup.base .boolean }

theorem declaredField_sample : declaredField 0 ⟨1⟩ sampleEmission = .ok ()
    { sampleEmission with classes := #[sampleDraft] } := by
  have h₀ : (liftM (Lookup.fieldEntry ⟨1⟩) : Emitting FieldEntry) sampleEmission =
      .ok sampleField sampleEmission := lookup_run rfl
  have hc : (liftM (Lookup.fieldConstant ⟨1⟩) : Emitting (Option Constant)) sampleEmission =
      .ok (some (.boolean true)) sampleEmission := lookup_run rfl
  have h₁ : (constantEntry 0 (.boolean true)) sampleEmission = .ok 4 sampleEmission :=
    buildIn_sample constant_sample
  have h₂ : buildIn 0 (constantValue 4) sampleEmission = .ok _ sampleEmission :=
    buildIn_sample constantValue_sample
  have h₃ : (liftM (Lookup.fieldSignature sampleField.type) : Emitting Text) sampleEmission =
      .ok {} sampleEmission := lookup_run fieldSignature_sample
  have h₄ : (liftM (Lookup.descriptor sampleField.type) : Emitting Text) sampleEmission =
      .ok "Z" sampleEmission := lookup_run descriptor_sample
  have h₅ : commonAttributes 0 {} sampleField.traits sampleEmission = .ok [] sampleEmission :=
    buildIn_sample rfl
  have hfinal : (sampleField.isStatic && sampleField.isFinal) = true := by decide
  unfold declaredField
  rw [bind_run h₀]
  simp only [hfinal, if_true]
  rw [bind_run hc]
  simp only
  rw [bind_run h₁, bind_run h₂, pure_bind, bind_run h₃, bind_run h₅, bind_run h₄]
  rfl

def sampleFile : ClassFile :=
  { sampleBuilder.file with
    fields := [⟨widen false sampleMember, 5, 6, [⟨3, indexBytes 4, .index 4⟩]⟩] }

theorem assemble_sample (isUsed : Std.HashSet FieldId) (usedMethods)
    (h : isUsed.contains ⟨1⟩ = false) :
    (assemble sampleDraft isUsed usedMethods [] {} {} false).run sampleBuilder =
      ((), { sampleBuilder with file := sampleFile }) := by
  have hT : (utf8 "T").run sampleBuilder = (5, sampleBuilder) := sample_hits.2.2.1
  have hZ : (utf8 "Z").run sampleBuilder = (6, sampleBuilder) := sample_hits.2.2.2
  have hadd (flags : AccessFlags) :
      (Builder.addField flags "T" "Z" sampleMember.attributes).run sampleBuilder = _ :=
    addField_run hT hZ
  have hused : (sampleMember.field.isSome && isUsed.contains sampleMember.field) = false := h
  unfold assemble
  simp only [sampleDraft]
  rw [← Array.forIn_toList, ← Array.forIn_toList]
  change ((), ((Builder.addField (widen (sampleMember.field.isSome &&
    isUsed.contains sampleMember.field) sampleMember) "T" "Z"
    sampleMember.attributes).run sampleBuilder).2) = _
  rw [hused, hadd]
  rfl

abbrev sampleDeclared : Emission := { sampleEmission with classes := #[sampleDraft] }

theorem toBytes_sample : ∃ bytes, sampleFile.toBytes = .ok bytes := ⟨_, rfl⟩

theorem finishClass_sample : ∃ o s, finishClass 0 sampleDeclared = .ok (.ok o) s ∧
    o.file = sampleFile := by
  obtain ⟨bytes, hbytes⟩ := toBytes_sample
  have hdraft : draft 0 sampleDeclared = .ok sampleDraft sampleDeclared := rfl
  have hshape : (liftM (Lookup.shape sampleDraft.type) : Emitting Shape) sampleDeclared =
      .ok .absent sampleDeclared := lookup_run shape_none
  have hinner : innerClasses sampleDraft false sampleDeclared = .ok [] sampleDeclared := rfl
  have hsignature :
      (liftM (Lookup.classSignature sampleDraft.type) : Emitting Text) sampleDeclared =
      .ok {} sampleDeclared := lookup_run classSignature_sample
  have hassemble := assemble_sample {} {} Std.HashSet.contains_empty
  have hget : (get : Emitting Emission) sampleDeclared = .ok sampleDeclared sampleDeclared := rfl
  have hbuild : buildIn 0 (assemble sampleDraft {} {} [] {} {} false) sampleDeclared =
      .ok () { sampleDeclared with builders := #[{ sampleBuilder with file := sampleFile }] } :=
    buildIn_run hassemble
  have hrun : finishClass 0 sampleDeclared =
      .ok (encode sampleDraft { sampleBuilder with file := sampleFile })
        { sampleDeclared with builders := #[{ sampleBuilder with file := sampleFile }] } := by
    unfold finishClass
    rw [bind_run hdraft, bind_run hshape, bind_run hget]
    dsimp only
    exact (bind_run hinner).trans ((bind_run hsignature).trans (bind_run hbuild))
  have hencode : encode sampleDraft { sampleBuilder with file := sampleFile } =
      .ok ⟨sampleDraft.name, sampleDraft.type, sampleFile, bytes⟩ := by
    simp only [encode, sampleBuilder, hbytes]
  exact ⟨_, _, hrun.trans (by rw [hencode]), rfl⟩

theorem sampleFile_wellFormed : sampleFile.WellFormed where
  slotted := .cons (.utf8 "A") (.cons (.cls 1) (.cons (.utf8 "ConstantValue") (.cons (.integer 0)
    (.cons (.utf8 "T") (.cons (.utf8 "Z") .nil)))))
  texts := by simp [sampleFile, sampleBuilder]; decide
  isClass := ⟨1, rfl⟩
  members := by
    intro m hm a ha
    obtain rfl := List.mem_singleton.1 hm
    obtain rfl := List.mem_singleton.1 ha
    exact decode_constantValue rfl 4
  attributes := nofun

theorem sampleFile_fits : sampleFile.Fits where
  interfaces := by decide
  fields := by decide
  methods := by decide
  members := by
    intro m hm
    obtain rfl := List.mem_singleton.1 hm
    exact ⟨by decide, fun a ha => by obtain rfl := List.mem_singleton.1 ha; decide⟩
  attributes := ⟨by decide, nofun⟩

/-- The constant `true` does not come back. -/
theorem constantField_iff_sample : ∃ (o : Output) (g : ClassFile) (m : ClassFile.Member),
    ofBytes o.bytes = .ok g ∧ o.file = sampleFile ∧
    m ∈ g.fields ∧ m.nameText g.pool = "T" ∧ (m.descriptorText g.pool = "Z" →
      (m.constantValue? g.pool).map (·.ofPool (m.descriptorText g.pool)) ≠ some (.boolean true)) := by
  obtain ⟨o, s, hfinish, hfile⟩ := finishClass_sample
  have hwell : o.file.WellFormed := hfile ▸ sampleFile_wellFormed
  have hfits : o.file.Fits := hfile ▸ sampleFile_fits
  obtain ⟨g, hg, m, hm, hname, hvalue⟩ := constantField_iff (i := 0) (f := ⟨1⟩)
    (s := sampleEmission) (c := .boolean true) sound_sampleBuilder (by decide) (by decide)
    (by decide) rfl nofun declaredField_sample
    ⟨.refl _, by decide, fun _ h => h⟩ hfinish hwell hfits
  exact ⟨o, g, m, hg, hfile, hm, hname, fun hd h => (hvalue hd).1 h rfl⟩

end

end Emit

end Javelin
