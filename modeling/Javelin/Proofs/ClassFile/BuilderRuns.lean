import Javelin.Proofs.ClassFile.CodeAttributes

/-!
# Runs of a builder

1. What an index leads to (`Pool.Holds`), and that it is one constant.
2. Every request is answered with an index of the constant that was asked for (`Answers`).
3. A run is any sequence of requests, of attributes that are made and of members that are added
   (`Runs`). What all runs keep is `Kept`; without a fault it says what `runs_keep` says.
-/

namespace Javelin.ClassFile

/-! ## Constants -/

/-- A constant that a builder can be asked for. -/
inductive Asked where
  | utf8 (t : Text)
  | cls (name : Text)
  | string (t : Text)
  | integer (v : Int32)
  | float (bits : UInt32)
  | long (v : Int64)
  | double (bits : UInt64)
  | nameAndType (name descriptor : Text)
  | ref (kind : RefKind) (owner name descriptor : Text)
deriving DecidableEq

/-- Asking for a constant. -/
def Asked.request : Asked → Build UInt16
  | .utf8 t => Builder.utf8 t
  | .cls name => Builder.cls name
  | .string t => Builder.string t
  | .integer v => Builder.integer v
  | .float bits => Builder.float bits
  | .long v => Builder.long v
  | .double bits => Builder.double bits
  | .nameAndType name descriptor => Builder.nameAndType name descriptor
  | .ref kind owner name descriptor => Builder.ref kind owner name descriptor

/-- The index leads to the constant, with all that it refers to. -/
inductive Pool.Holds (p : Pool) : UInt16 → Asked → Prop
  | utf8 {i : UInt16} {t : Text} (h : p.get? i = some (.utf8 t)) : Holds p i (.utf8 t)
  | cls {i n : UInt16} {name : Text} (h : p.get? i = some (.cls n)) (hn : Holds p n (.utf8 name)) :
    Holds p i (.cls name)
  | string {i n : UInt16} {t : Text} (h : p.get? i = some (.string n)) (hn : Holds p n (.utf8 t)) :
    Holds p i (.string t)
  | integer {i : UInt16} {v : Int32} (h : p.get? i = some (.integer v)) : Holds p i (.integer v)
  | float {i : UInt16} {bits : UInt32} (h : p.get? i = some (.float bits)) : Holds p i (.float bits)
  | long {i : UInt16} {v : Int64} (h : p.get? i = some (.long v)) : Holds p i (.long v)
  | double {i : UInt16} {bits : UInt64} (h : p.get? i = some (.double bits)) :
    Holds p i (.double bits)
  | nameAndType {i n d : UInt16} {name descriptor : Text} (h : p.get? i = some (.nameAndType n d))
    (hn : Holds p n (.utf8 name)) (hd : Holds p d (.utf8 descriptor)) :
    Holds p i (.nameAndType name descriptor)
  | ref {i c nt : UInt16} {kind : RefKind} {owner name descriptor : Text}
    (h : p.get? i = some (.ref kind c nt)) (hc : Holds p c (.cls owner))
    (hnt : Holds p nt (.nameAndType name descriptor)) : Holds p i (.ref kind owner name descriptor)

namespace Pool

variable {p q : Pool} {i j : UInt16} {a c : Asked}

/-- What an index leads to stays when the pool grows. -/
theorem Holds.grow (h : p.Holds i a) (hpool : p.Within q) : q.Holds i a := by
  induction h with
  | utf8 h => exact .utf8 (hpool.get? h)
  | cls h _ hn => exact .cls (hpool.get? h) hn
  | string h _ hn => exact .string (hpool.get? h) hn
  | integer h => exact .integer (hpool.get? h)
  | float h => exact .float (hpool.get? h)
  | long h => exact .long (hpool.get? h)
  | double h => exact .double (hpool.get? h)
  | nameAndType h _ _ hn hd => exact .nameAndType (hpool.get? h) hn hd
  | ref h _ _ hc hnt => exact .ref (hpool.get? h) hc hnt

/-- An index leads to one constant only. -/
theorem Holds.unique (h : p.Holds i a) (h' : p.Holds i c) : a = c := by
  induction h generalizing c <;> cases h' <;> grind

/-- No entry stands in the pool twice. -/
def Distinct (p : Pool) : Prop := ∀ i j e, p.get? i = some e → p.get? j = some e → i = j

/-- In a pool without repetition a constant has one index only. -/
theorem Distinct.holds (hp : p.Distinct) (h : p.Holds i a) (h' : p.Holds j a) : i = j := by
  induction h generalizing j with
  | utf8 h => cases h' with | utf8 h' => exact hp _ _ _ h h'
  | cls h _ hn =>
    cases h' with
    | cls h' hn' =>
      obtain rfl := hn hn'
      exact hp _ _ _ h h'
  | string h _ hn =>
    cases h' with
    | string h' hn' =>
      obtain rfl := hn hn'
      exact hp _ _ _ h h'
  | integer h => cases h' with | integer h' => exact hp _ _ _ h h'
  | float h => cases h' with | float h' => exact hp _ _ _ h h'
  | long h => cases h' with | long h' => exact hp _ _ _ h h'
  | double h => cases h' with | double h' => exact hp _ _ _ h h'
  | nameAndType h _ _ hn hd =>
    cases h' with
    | nameAndType h' hn' hd' =>
      obtain rfl := hn hn'
      obtain rfl := hd hd'
      exact hp _ _ _ h h'
  | ref h _ _ hc hnt =>
    cases h' with
    | ref h' hc' hnt' =>
      obtain rfl := hc hc'
      obtain rfl := hnt hnt'
      exact hp _ _ _ h h'

end Pool

namespace Builder

/-! ## Requests -/

theorem adds_nameAndType (name descriptor : Text) : Adds (nameAndType name descriptor) :=
  (adds_utf8 _).bind fun _ => (adds_utf8 _).bind fun _ => grown_add _

theorem adds_request (a : Asked) : Adds a.request := by
  cases a with
  | utf8 t => exact adds_utf8 t
  | cls name => exact adds_cls name
  | string t => exact adds_string t
  | nameAndType name descriptor => exact adds_nameAndType name descriptor
  | ref kind owner name descriptor =>
    exact (adds_cls _).bind fun _ => (adds_nameAndType _ _).bind fun _ => grown_add _
  | _ => exact grown_add _

/-- Without a fault the action gives an index of the constant. -/
def Answers (m : Build UInt16) (a : Asked) : Prop :=
  ∀ b, b.Sound → (m.run b).2.fault = none → (m.run b).2.file.pool.Holds (m.run b).1 a

theorem run_bind {α β : Type} (m : Build α) (f : α → Build β) (b : Builder) :
    (m >>= f).run b = (f (m.run b).1).run (m.run b).2 := rfl

theorem answers_utf8 (t : Text) : Answers (utf8 t) (.utf8 t) := fun _ hb hfault =>
  .utf8 (utf8_get hb hfault)

/-- A constant that refers to a text. -/
theorem answers_text {m : Build UInt16} {t : Text} {e : UInt16 → Entry} {a : Asked}
    (hm : m = do add (e (← utf8 t)))
    (ha : ∀ p i n, Pool.get? p i = some (e n) → p.Holds n (.utf8 t) → p.Holds i a) :
    Answers m a := by
  intro b hb hfault
  rw [hm, run_bind] at hfault ⊢
  have ht := adds_utf8 t b
  have hadd := grown_add (e ((utf8 t).run b).1) ((utf8 t).run b).2
  exact ha _ _ _ (add_get (ht.sound hb) hfault)
    ((answers_utf8 t b hb (hadd.fault hfault)).grow hadd.pool)

theorem answers_cls (name : Text) : Answers (cls name) (.cls name) :=
  answers_text rfl fun _ _ _ => .cls

theorem answers_string (t : Text) : Answers (string t) (.string t) :=
  answers_text rfl fun _ _ _ => .string

theorem run_nameAndType (name descriptor : Text) (b : Builder) :
    (nameAndType name descriptor).run b = (add (.nameAndType ((utf8 name).run b).1
      ((utf8 descriptor).run ((utf8 name).run b).2).1)).run
        ((utf8 descriptor).run ((utf8 name).run b).2).2 := by
  rw [nameAndType, run_bind, run_bind]

theorem answers_nameAndType (name descriptor : Text) :
    Answers (nameAndType name descriptor) (.nameAndType name descriptor) := by
  intro b hb hfault
  rw [run_nameAndType] at hfault ⊢
  have hname := adds_utf8 name b
  have hdescriptor := adds_utf8 descriptor ((utf8 name).run b).2
  have hadd := grown_add (.nameAndType ((utf8 name).run b).1
    ((utf8 descriptor).run ((utf8 name).run b).2).1) ((utf8 descriptor).run ((utf8 name).run b).2).2
  have hn := answers_utf8 name b hb (hdescriptor.fault (hadd.fault hfault))
  have hd := answers_utf8 descriptor _ (hname.sound hb) (hadd.fault hfault)
  exact .nameAndType (add_get (hdescriptor.sound (hname.sound hb)) hfault)
    (hn.grow (hdescriptor.pool.trans hadd.pool)) (hd.grow hadd.pool)

theorem run_ref (kind : RefKind) (owner name descriptor : Text) (b : Builder) :
    (ref kind owner name descriptor).run b = (add (.ref kind ((cls owner).run b).1
      ((nameAndType name descriptor).run ((cls owner).run b).2).1)).run
        ((nameAndType name descriptor).run ((cls owner).run b).2).2 := by
  rw [ref, run_bind, run_bind]

theorem answers_ref (kind : RefKind) (owner name descriptor : Text) :
    Answers (ref kind owner name descriptor) (.ref kind owner name descriptor) := by
  intro b hb hfault
  rw [run_ref] at hfault ⊢
  have howner := adds_cls owner b
  have hmember := adds_nameAndType name descriptor ((cls owner).run b).2
  have hadd := grown_add (.ref kind ((cls owner).run b).1
    ((nameAndType name descriptor).run ((cls owner).run b).2).1)
    ((nameAndType name descriptor).run ((cls owner).run b).2).2
  have hc := answers_cls owner b hb (hmember.fault (hadd.fault hfault))
  have hnt := answers_nameAndType name descriptor _ (howner.sound hb) (hadd.fault hfault)
  exact .ref (add_get (hmember.sound (howner.sound hb)) hfault)
    (hc.grow (hmember.pool.trans hadd.pool)) (hnt.grow hadd.pool)

/-- Every request is answered with an index of the constant. -/
theorem answers_request (a : Asked) : Answers a.request a := by
  cases a with
  | utf8 t => exact answers_utf8 t
  | cls name => exact answers_cls name
  | string t => exact answers_string t
  | integer v => exact fun _ hb hfault => .integer (add_get hb hfault)
  | float bits => exact fun _ hb hfault => .float (add_get hb hfault)
  | long v => exact fun _ hb hfault => .long (add_get hb hfault)
  | double bits => exact fun _ hb hfault => .double (add_get hb hfault)
  | nameAndType name descriptor => exact answers_nameAndType name descriptor
  | ref kind owner name descriptor => exact answers_ref kind owner name descriptor

/-! ## Runs -/

/-- What a builder was used for so far. -/
structure History where
  builder : Builder
  /-- The constants asked for, with the indices given for them. -/
  answers : List (Asked × UInt16)
  attributes : List Attribute
  /-- The code that attributes were made of. -/
  codes : List Code

/-- A constant is asked for. -/
def History.ask (s : History) (a : Asked) : History :=
  { s with
    builder := (a.request.run s.builder).2
    answers := (a, (a.request.run s.builder).1) :: s.answers }

/-- An attribute is made, of some code. -/
def History.produce (s : History) (m : Build Attribute) (cs : List Code) : History :=
  { s with
    builder := (m.run s.builder).2
    attributes := (m.run s.builder).1 :: s.attributes
    codes := cs ++ s.codes }

/-- Something is put into the class. -/
def History.place (s : History) (m : Build Unit) : History :=
  { s with builder := (m.run s.builder).2 }

/-- Ways to make an attribute. Inside code stand attributes that were made before. -/
inductive Produces (made : List Attribute) : Build Attribute → List Code → Prop
  | constantValue (i : UInt16) : Produces made (constantValue i) []
  | signature (t : Text) : Produces made (signature t) []
  | sourceFile (t : Text) : Produces made (sourceFile t) []
  | deprecated : Produces made deprecated []
  | exceptions (names : List Text) : Produces made (exceptions names) []
  | innerClasses (cs : List InnerClass) : Produces made (innerClasses cs) []
  | lineNumbers (es : List LineEntry) : Produces made (lineNumbers es) []
  | code (c : Code) (h : ∀ a ∈ c.attributes, a ∈ made) : Produces made (code c) [c]

/-- Ways to put a member or an attribute into the class. -/
inductive Places : Build Unit → Prop
  | field (flags : AccessFlags) (name descriptor : Text) (as : List Attribute) :
    Places (addField flags name descriptor as)
  | method (flags : AccessFlags) (name descriptor : Text) (as : List Attribute) :
    Places (addMethod flags name descriptor as)
  | classAttribute (a : Attribute) : Places (addAttribute a)

/-- What can happen with a builder. -/
inductive Runs : History → Prop
  | start (flags : AccessFlags) (name super : Text) (interfaces : List Text) :
    Runs ⟨new flags name super interfaces, [], [], []⟩
  | ask {s : History} (h : Runs s) (a : Asked) : Runs (s.ask a)
  | produce {s : History} (h : Runs s) {m : Build Attribute} {cs : List Code}
    (hm : Produces s.attributes m cs) : Runs (s.produce m cs)
  | place {s : History} (h : Runs s) {m : Build Unit} (hm : Places m) : Runs (s.place m)

theorem adds_places {m : Build Unit} (h : Places m) : Adds m := by
  cases h with
  | field flags name descriptor as => exact adds_addField flags name descriptor as
  | method flags name descriptor as => exact adds_addMethod flags name descriptor as
  | classAttribute a => exact adds_addAttribute a

theorem adds_code (c : Code) : Adds (code c) :=
  adds_ite (Adds.bind (grown_fail _) fun _ => adds_attributeOf _ _) (adds_attributeOf _ _)

theorem adds_produces {made : List Attribute} {m : Build Attribute} {cs : List Code}
    (h : Produces made m cs) : Adds m := by
  cases h with
  | signature t => exact adds_signature t
  | sourceFile t => exact adds_sourceFile t
  | exceptions names => exact (adds_mapM adds_cls names).bind fun _ => adds_attributeOf _ _
  | innerClasses cs => exact adds_innerClasses cs
  | code c h => exact adds_code c
  | _ => exact adds_attributeOf _ _


/-- Without a fault the action gives an attribute that lasts. -/
def Stable (m : Build Attribute) : Prop :=
  ∀ b, b.Sound → (m.run b).2.fault = none → (m.run b).1.Lasts (m.run b).2.file.pool

theorem Stable.bind {α : Type} {m : Build α} {f : α → Build Attribute} (hm : Adds m)
    (hf : ∀ a, Stable (f a)) : Stable (m >>= f) :=
  fun b hb hfault => hf (m.run b).1 (m.run b).2 ((hm b).sound hb) hfault

theorem stable_attributeOf {name : Text} (hname : name ≠ "Code") (bytes : Text) :
    Stable (attributeOf name bytes) :=
  fun _ hb hfault => lasts_attributeOf hname hb hfault

/-- What is made lasts, if what is inside it does. -/
theorem lasts_produces {made : List Attribute} {m : Build Attribute} {cs : List Code} {b : Builder}
    (h : Produces made m cs) (hb : b.Sound) (hfault : (m.run b).2.fault = none)
    (hfits : ∀ c ∈ cs, c.Fits) (hmade : ∀ a ∈ made, a.Lasts b.file.pool) :
    (m.run b).1.Lasts (m.run b).2.file.pool := by
  cases h with
  | signature t =>
    exact Stable.bind (adds_utf8 t) (fun _ => stable_attributeOf (by decide) _) b hb hfault
  | sourceFile t =>
    exact Stable.bind (adds_utf8 t) (fun _ => stable_attributeOf (by decide) _) b hb hfault
  | exceptions names =>
    exact Stable.bind (adds_mapM adds_cls names) (fun _ => stable_attributeOf (by decide) _) b hb
      hfault
  | innerClasses cs =>
    exact Stable.bind (adds_foldlM adds_innerClassBytes cs _)
      (fun _ => stable_attributeOf (by decide) _) b hb hfault
  | code c h =>
    exact lasts_code hb hfault (hfits c (List.mem_singleton_self c)) fun a ha => hmade a (h a ha)
  | _ => exact stable_attributeOf (by decide) _ b hb hfault

/-- What all runs keep. -/
structure Kept (s : History) : Prop where
  sound : s.builder.Sound
  exact : s.builder.Exact
  answers : s.builder.fault = none → ∀ p ∈ s.answers, s.builder.file.pool.Holds p.2 p.1
  attributes : s.builder.fault = none → (∀ c ∈ s.codes, c.Fits) →
    ∀ a ∈ s.attributes, a.Lasts s.builder.file.pool

/-- What was said before is still true when the builder has grown. -/
theorem Kept.grow {s : History} {b : Builder} (h : Kept s) (hgrown : Grown s.builder b) :
    Kept { s with builder := b } where
  sound := hgrown.sound h.sound
  exact := hgrown.exact h.exact
  answers hfault p hp := (h.answers (hgrown.fault hfault) p hp).grow hgrown.pool
  attributes hfault hfits a ha := (h.attributes (hgrown.fault hfault) hfits a ha).grow hgrown.pool

theorem grown_new (flags : AccessFlags) (name super : Text) (interfaces : List Text) :
    Grown { file := { major := writtenMajor, flags } } (new flags name super interfaces) := by
  refine Adds.bind (adds_cls name) (fun this => Adds.bind (adds_modifyFile ?_) fun _ => ?_) _
  · exact fun _ => ⟨rfl, List.prefix_refl _⟩
  have hrest : Adds (do
      let is ← interfaces.mapM cls
      modifyFile fun f => { f with interfaces := is }) :=
    (adds_mapM adds_cls interfaces).bind fun _ => adds_modifyFile fun _ => ⟨rfl, List.prefix_refl _⟩
  refine adds_ite ?_ hrest
  refine Adds.bind (adds_cls super) fun _ => Adds.bind (adds_modifyFile ?_) fun _ => hrest
  exact fun _ => ⟨rfl, List.prefix_refl _⟩

/-- A builder that was not used yet. -/
theorem exact_start (f : ClassFile) (hpool : f.pool = {}) :
    Sound { file := f } ∧ Exact { file := f } := by
  have hget (i : UInt16) : f.pool.get? i = none := by
    rw [hpool]
    unfold Pool.get?
    split <;> rfl
  refine ⟨fun e i h => ?_, fun e i h => ?_, ?_, ?_⟩
  · rw [Std.HashMap.get?_eq_getElem?, Std.HashMap.getElem?_empty] at h
    cases h
  · rw [hget] at h
    cases h
  · exact hpool ▸ .nil
  · exact hpool ▸ Nat.zero_lt_succ _

theorem kept_start (flags : AccessFlags) (name super : Text) (interfaces : List Text) :
    Kept ⟨new flags name super interfaces, [], [], []⟩ := by
  have hgrown := grown_new flags name super interfaces
  obtain ⟨hsound, hexact⟩ := exact_start { major := writtenMajor, flags } rfl
  exact ⟨hgrown.sound hsound, hgrown.exact hexact, fun _ => nofun, fun _ _ => nofun⟩

theorem Runs.kept {s : History} (h : Runs s) : Kept s := by
  induction h with
  | start flags name super interfaces => exact kept_start flags name super interfaces
  | @ask s h a ih =>
    have hgrown := ih.grow (adds_request a s.builder)
    refine ⟨hgrown.sound, hgrown.exact, fun hfault => ?_, hgrown.attributes⟩
    exact List.forall_mem_cons.2 ⟨answers_request a _ ih.sound hfault, hgrown.answers hfault⟩
  | @produce s h m cs hm ih =>
    have hadds := adds_produces hm s.builder
    have hgrown := ih.grow hadds
    refine ⟨hgrown.sound, hgrown.exact, hgrown.answers, fun hfault hfits => ?_⟩
    obtain ⟨hcs, hcodes⟩ := List.forall_mem_append.1 hfits
    have hmade := ih.attributes (hadds.fault hfault) hcodes
    exact List.forall_mem_cons.2 ⟨lasts_produces hm ih.sound hfault hcs hmade,
      hgrown.attributes hfault hcodes⟩
  | place h hm ih => exact ih.grow (adds_places hm _)

theorem Exact.distinct {b : Builder} (h : b.Exact) : b.file.pool.Distinct := by
  intro i j e hi hj
  have := (h.indexed e i hi).symm.trans (h.indexed e j hj)
  exact Option.some.inj this

/-- However a builder is used, as long as it has no fault: every index that was given leads to the
constant that was asked for, two requests have the same index exactly if they ask for the same, the
only empty places are those behind wide entries, there are at most 65534 places, and every attribute
decodes to what it was decoded to when it was made. The last is so if all code that was put into an
attribute fits there. -/
theorem runs_keep {s : History} (h : Runs s) (hfault : s.builder.fault = none) :
    (∀ p ∈ s.answers, s.builder.file.pool.Holds p.2 p.1) ∧
    (∀ p ∈ s.answers, ∀ q ∈ s.answers, p.2 = q.2 ↔ p.1 = q.1) ∧
    Slotted s.builder.file.pool.entries.toList ∧
    s.builder.file.pool.entries.size ≤ 65534 ∧
    ((∀ c ∈ s.codes, c.Fits) →
      ∀ a ∈ s.attributes, decode s.builder.file.pool a.name a.bytes = .ok a.body) := by
  have hkept := h.kept
  have hanswers := hkept.answers hfault
  refine ⟨hanswers, fun p hp q hq => ⟨fun heq => ?_, fun heq => ?_⟩, hkept.exact.slotted,
    Nat.le_of_lt_succ hkept.exact.size, fun hfits a ha => ?_⟩
  · exact (hanswers p hp).unique (heq ▸ hanswers q hq)
  · exact hkept.exact.distinct.holds (hanswers p hp) (heq ▸ hanswers q hq)
  · exact hkept.attributes hfault hfits a ha _ (.refl _)

/-! ## A run -/

/-- There are `n` free places in the pool, and no fault so far. -/
structure Room (n : Nat) (b : Builder) : Prop where
  sound : b.Sound
  fault : b.fault = none
  size : b.file.pool.entries.size + n < 65535

/-- The action needs at most `k` places. -/
def Costs {α : Type} (k : Nat) (m : Build α) : Prop :=
  ∀ n b, Room (n + k) b → Room n (m.run b).2

theorem Costs.bind {α β : Type} {j k : Nat} {m : Build α} {f : α → Build β} (hm : Costs j m)
    (hf : ∀ a, Costs k (f a)) : Costs (k + j) (m >>= f) := fun n b h =>
  hf _ _ _ (hm _ _ (by rwa [Nat.add_assoc]))

theorem costs_pure {α : Type} (a : α) : Costs 0 (pure a : Build α) := fun _ _ h => h

theorem costs_modifyFile {f : ClassFile → ClassFile} (h : ∀ c, (f c).pool = c.pool) :
    Costs 0 (modifyFile f) := by
  intro n b hb
  refine ⟨fun e i hi => ?_, hb.fault, ?_⟩
  · exact (h b.file).symm ▸ hb.sound e i hi
  · exact (h b.file).symm ▸ hb.size

theorem costs_add (e : Entry) : Costs e.slots (add e) := by
  intro n b hb
  have hsize := hb.size
  obtain ⟨i, _, h⟩ | ⟨f, hfull, h⟩ | ⟨_, _, h⟩ := add_cases e b
  · rw [h]
    exact ⟨hb.sound, hb.fault, Nat.lt_of_le_of_lt (Nat.add_le_add_left (Nat.le_add_right n _) _)
      hsize⟩
  · omega
  · refine ⟨(grown_add e b).sound hb.sound, ?_, ?_⟩
    · rw [h]
      exact hb.fault
    · have hslots := slots_bounds e
      rw [h]
      simp
      omega

theorem costs_utf8 (t : Text) : Costs 1 (utf8 t) := costs_add (.utf8 t)

theorem costs_cls (t : Text) : Costs 2 (cls t) :=
  (costs_utf8 t).bind fun i => costs_add (.cls i)

theorem costs_nameAndType (name descriptor : Text) : Costs 3 (nameAndType name descriptor) :=
  (costs_utf8 name).bind fun i => (costs_utf8 descriptor).bind fun j => costs_add (.nameAndType i j)

theorem costs_ref (kind : RefKind) (owner name descriptor : Text) :
    Costs 6 (ref kind owner name descriptor) :=
  (costs_cls owner).bind fun i => (costs_nameAndType name descriptor).bind fun j =>
    costs_add (.ref kind i j)

theorem costs_addMethod (flags : AccessFlags) (name descriptor : Text) (as : List Attribute) :
    Costs 2 (addMethod flags name descriptor as) := by
  have hmember : Costs 2 (memberOf flags name descriptor as) :=
    (costs_utf8 name).bind fun _ => (costs_utf8 descriptor).bind fun _ => costs_pure _
  exact hmember.bind fun _ => costs_modifyFile fun _ => rfl

/-- There is room for an attribute whose bytes can be read. -/
theorem room_attributeOf {name bytes : Text} {n : Nat} {b : Builder} (hb : Room (n + 1) b)
    (h : ∀ p i, b.file.pool.Within p → p.utf8 i = name → ∃ body, decode p i bytes = .ok body) :
    Room n ((attributeOf name bytes).run b).2 := by
  have hroom := costs_utf8 name n b hb
  have hpool := (adds_utf8 name b).pool
  have hname := (Pool.Within.refl _).utf8 (utf8_get hb.sound hroom.fault)
  obtain ⟨i, b', hrun⟩ : ∃ i b', (utf8 name).run b = (i, b') := ⟨_, _, rfl⟩
  rw [hrun] at hroom hpool hname
  obtain ⟨body, hbody⟩ := h b'.file.pool i hpool hname
  rw [attributeOf_run hrun, hbody]
  exact hroom

theorem bytes_attributeOf (name bytes : Text) (b : Builder) :
    ((attributeOf name bytes).run b).1.bytes = bytes := by
  obtain ⟨n, b', hname⟩ : ∃ n b', (utf8 name).run b = (n, b') := ⟨_, _, rfl⟩
  rw [attributeOf_run hname]
  cases decode b'.file.pool n bytes <;> rfl

/-- A class with a long and a field of its own. -/
def sampleAsked : History :=
  (History.ask ⟨new ⟨33⟩ "A" {} [], [], [], []⟩ (.long 5)).ask (.ref .field "A" "x" "J")

def sampleMarked : History := sampleAsked.produce deprecated []

/-- A method body that returns at once, with a handler, and the attribute made before inside it. -/
def sampleCode : Code := ⟨1, 1, ⟨⟨#[177]⟩⟩, [⟨0, 1, 0, 0⟩], sampleMarked.attributes⟩

def sampleHistory : History :=
  (sampleMarked.produce (code sampleCode) [sampleCode]).place (addMethod ⟨1⟩ "m" "()V" [])

theorem runs_sampleMarked : Runs sampleMarked :=
  (((Runs.start ⟨33⟩ "A" {} []).ask (.long 5)).ask (.ref .field "A" "x" "J")).produce .deprecated

theorem runs_sampleHistory : Runs sampleHistory :=
  (runs_sampleMarked.produce (.code sampleCode fun _ h => h)).place (.method ..)

theorem fits_sampleCode : sampleCode.Fits := by
  refine ⟨by decide, fun a ha => ?_⟩
  obtain rfl := List.mem_singleton.1 ha
  rw [deprecated, bytes_attributeOf]
  decide

theorem room_start {n : Nat} (hn : n + 2 < 65535) : Room n (new ⟨33⟩ "A" {} []) := by
  have hmake : Costs 2 (do
      let this ← cls "A"
      modifyFile fun f => { f with thisClass := this }
      modifyFile fun f => { f with interfaces := [] }) := by
    refine (costs_cls "A").bind fun _ => Costs.bind (j := 0) (k := 0) (costs_modifyFile ?_) fun _ =>
      costs_modifyFile ?_
    · exact fun _ => rfl
    · exact fun _ => rfl
  refine hmake n { file := { major := writtenMajor, flags := ⟨33⟩ } }
    ⟨(exact_start _ rfl).1, rfl, ?_⟩
  exact Nat.lt_of_le_of_lt (Nat.le_of_eq (Nat.zero_add _)) hn

theorem room_sampleMarked : Room 3 sampleMarked.builder := by
  have hlong := costs_add (.long 5) 10 _ (room_start (by decide))
  have href := costs_ref .field "A" "x" "J" 4 _ hlong
  exact room_attributeOf href fun _ _ _ h => ⟨_, decode_deprecated h _⟩

theorem room_sampleHistory : Room 0 sampleHistory.builder := by
  have hlasts := runs_sampleMarked.kept.attributes room_sampleMarked.fault nofun
  have hcode : Room 2 (sampleMarked.produce (code sampleCode) [sampleCode]).builder :=
    room_attributeOf room_sampleMarked fun p _ hp hname =>
      ⟨_, decode_code hname (by decide) fits_sampleCode fun a ha => hlasts a ha p hp⟩
  exact costs_addMethod _ _ _ _ 0 _ hcode

/-- The long and the field are found under different indices, and both attributes still decode. -/
theorem runs_keep_sample :
    (∃ i j, sampleHistory.answers = [(.ref .field "A" "x" "J", i), (.long 5, j)] ∧ i ≠ j ∧
      sampleHistory.builder.file.pool.get? j = some (.long 5)) ∧
    ∃ a c, sampleHistory.attributes = [c, a] ∧ sampleCode.attributes = [a] ∧
      ∀ b ∈ [c, a], decode sampleHistory.builder.file.pool b.name b.bytes = .ok b.body := by
  obtain ⟨hholds, hsame, -, -, hdecode⟩ := runs_keep runs_sampleHistory room_sampleHistory.fault
  refine ⟨⟨_, _, rfl, fun heq => ?_, ?_⟩, _, _, rfl, rfl, hdecode ?_⟩
  · exact absurd ((hsame _ (List.mem_cons_self ..) _ (.tail _ (List.mem_cons_self ..))).1 heq) nofun
  · cases hholds _ (.tail _ (List.mem_cons_self ..)) with
    | long h => exact h
  · exact List.forall_mem_singleton.2 fits_sampleCode

end Builder

end Javelin.ClassFile
