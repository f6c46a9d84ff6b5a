import Javelin.Proofs.ClassFile.Reading

/-!
# Written class files are read back

The writer checks the size of the pool and of each text, and cuts all other counts and lengths to
the bits that the format has for them. So a class comes back as it was exactly if these fit
(`ofBytes_toBytes_iff`).
-/

namespace Javelin.ClassFile

/-! ## Classes that hold together -/

/-- Each wide entry is followed by one empty place, and no other place is empty. -/
inductive Slotted : List (Option Entry) → Prop where
  | nil : Slotted []
  | cons (e : Entry) {es : List (Option Entry)} (h : Slotted es) :
    Slotted (some e :: (List.replicate (e.slots - 1) none ++ es))

/-- The decoded form of each attribute is that of its bytes. -/
def AttributesDecoded (p : Pool) (as : List Attribute) : Prop :=
  ∀ a ∈ as, decode p a.name a.bytes = .ok a.body

/-- A class whose parts hold together. -/
structure WellFormed (c : ClassFile) : Prop where
  slotted : Slotted c.pool.entries.toList
  texts : ∀ t, some (.utf8 t) ∈ c.pool.entries.toList → t.isUtf8 = true
  isClass : ∃ i, c.pool.get? c.thisClass = some (.cls i)
  members : ∀ m ∈ c.fields ++ c.methods, AttributesDecoded c.pool m.attributes
  attributes : AttributesDecoded c.pool c.attributes

/-- The count of attributes has 16 bits and the length of each 32. -/
def AttributesFit (as : List Attribute) : Prop :=
  as.length < 65536 ∧ ∀ a ∈ as, a.bytes.size < 4294967296

/-- The counts and lengths of a class have no more bits than the format has for them. -/
structure Fits (c : ClassFile) : Prop where
  interfaces : c.interfaces.length < 65536
  fields : c.fields.length < 65536
  methods : c.methods.length < 65536
  members : ∀ m ∈ c.fields ++ c.methods, AttributesFit m.attributes
  attributes : AttributesFit c.attributes

/-! ## The pool -/

/-- The bytes of the entries in a row. -/
def bytesOfEntries (es : List (Option Entry)) : List UInt8 :=
  es.flatMap fun | none => [] | some e => e.tag :: e.payload

theorem appendEntries_cons {e : Entry} {es : List (Option Entry)} {out out' : Text} {i : Nat}
    (h : appendEntries out i (some e :: es) = .ok out') :
    (∀ t, e = .utf8 t → t.toStored.size < 65536) ∧
      appendEntries (e.append (out.push e.tag)) (i + 1) es = .ok out' := by
  cases e with
  | utf8 t =>
    by_cases hlong : 65535 < t.toStored.size
    · simp [appendEntries, hlong] at h
      cases h
    · refine ⟨?_, by simpa [appendEntries, hlong] using h⟩
      rintro _ ⟨⟩
      omega
  | _ => exact ⟨fun _ => nofun, h⟩

theorem appendEntries_ok {es : List (Option Entry)} {out out' : Text} {i : Nat}
    (h : appendEntries out i es = .ok out') :
    out'.toList = out.toList ++ bytesOfEntries es ∧
      ∀ t, some (.utf8 t) ∈ es → t.toStored.size < 65536 := by
  induction es generalizing out i with
  | nil => cases h; simp [bytesOfEntries]
  | cons e? es ih =>
    cases e? with
    | none =>
      obtain ⟨hout, htexts⟩ := ih h
      exact ⟨by simpa [bytesOfEntries] using hout, by simpa using htexts⟩
    | some e =>
      obtain ⟨hshort, hrest⟩ := appendEntries_cons h
      obtain ⟨hout, htexts⟩ := ih hrest
      refine ⟨by simpa [bytesOfEntries] using hout, fun t ht => ?_⟩
      rw [List.mem_cons, Option.some.injEq] at ht
      exact ht.elim (fun h => hshort t h.symm) (htexts t)

theorem toNat_sub_one {i : UInt16} (h : 0 < i.toNat) : (i - 1).toNat = i.toNat - 1 := by
  rw [UInt16.toNat_sub]
  have := i.toNat_lt
  simp
  omega

/-- Reading goes on behind the places that are filled. -/
theorem reads_entriesFrom {es : List (Option Entry)} (hslotted : Slotted es)
    (hsound : ∀ e, some e ∈ es → e.IsSound) {count i : UInt16} (done : List (Option Entry))
    (hi : i.toNat = done.length + 1) (hcount : count.toNat = done.length + es.length + 1)
    {v : Vector (Option Entry) (count.toNat - 1)}
    (hv : v.toList = done ++ List.replicate es.length none) :
    Reads (entriesFrom i v) (bytesOfEntries es) ⟨(done ++ es).toArray⟩ := by
  induction hslotted generalizing i done v with
  | nil =>
    have hlt : ¬ i < count := by
      rw [UInt16.lt_iff_toNat_lt]
      simp at hcount
      omega
    unfold entriesFrom
    rw [dif_neg hlt]
    have hpool : v.toArray = (done ++ []).toArray := by
      rw [← Array.toList_inj]
      exact hv
    rw [← hpool]
    exact reads_pure _
  | @cons e es hes ih =>
    have hslots := slots_bounds e
    have hbound := count.toNat_lt
    simp only [List.length_cons, List.length_append, List.length_replicate] at hcount hv
    have hlt : i < count := UInt16.lt_iff_toNat_lt.2 (by omega)
    have hplace : (i - 1).toNat = done.length := by
      rw [toNat_sub_one (by omega)]
      omega
    have hnext : (i + e.slots.toUInt16).toNat = done.length + 1 + e.slots := by
      rw [toNat_add_slots hlt, if_neg (by omega)]
      omega
    have hin : (i - 1).toNat < count.toNat - 1 := by omega
    unfold entriesFrom
    rw [dif_pos hlt]
    have hfilled : (v.set (i - 1).toNat (some e)).toList =
        (done ++ some e :: List.replicate (e.slots - 1) none) ++
          List.replicate es.length none := by
      rw [Vector.toList_set, hv]
      simp [hplace, List.replicate_succ, List.set_append_right,
        ← List.replicate_append_replicate]
    have hrest : Reads (entriesFrom (i + e.slots.toUInt16) (v.set (i - 1).toNat (some e)))
        (bytesOfEntries es)
        ⟨(done ++ some e :: List.replicate (e.slots - 1) none ++ es).toArray⟩ :=
      ih (fun e' h => hsound e' (by simp [h])) _ (by simp; omega) (by simp; omega) hfilled
    have hentry := reads_entry (hsound e List.mem_cons_self) i.toNat
    have hbytes : bytesOfEntries (some e :: (List.replicate (e.slots - 1) none ++ es)) =
        (e.tag :: e.payload) ++ bytesOfEntries es := by
      simp [bytesOfEntries]
    rw [hbytes]
    refine hentry.bind ?_
    simp only [hin, dif_pos]
    simpa using hrest

/-! ## Attributes and members -/

def bytesOfAttribute (a : Attribute) : List UInt8 :=
  bytesOfU2 a.name ++ (bytesOfU4 a.bytes.size.toUInt32 ++ a.bytes.toList)

def bytesOfAttributes (as : List Attribute) : List UInt8 :=
  bytesOfU2 as.length.toUInt16 ++ as.flatMap bytesOfAttribute

def bytesOfMember (m : Member) : List UInt8 :=
  bytesOfU2 m.flags.bits ++
    (bytesOfU2 m.name ++ (bytesOfU2 m.descriptor ++ bytesOfAttributes m.attributes))

def bytesOfMembers (ms : List Member) : List UInt8 :=
  bytesOfU2 ms.length.toUInt16 ++ ms.flatMap bytesOfMember

theorem toList_foldl {α : Type} {f : Text → α → Text} {encode : α → List UInt8}
    (h : ∀ out a, (f out a).toList = out.toList ++ encode a) (as : List α) (out : Text) :
    (as.foldl f out).toList = out.toList ++ as.flatMap encode := by
  induction as generalizing out with
  | nil => simp
  | cons a as ih => rw [List.foldl_cons, ih, h, List.append_assoc, List.flatMap_cons]

@[simp] theorem toList_appendAttributes (out : Text) (as : List Attribute) :
    (appendAttributes out as).toList = out.toList ++ bytesOfAttributes as := by
  have hone (out : Text) (a : Attribute) :
      ((out.pushU2 a.name).pushU4 a.bytes.size.toUInt32 ++ a.bytes).toList =
        out.toList ++ bytesOfAttribute a := by
    simp [bytesOfAttribute]
  rw [appendAttributes, toList_foldl hone]
  simp [bytesOfAttributes]

@[simp] theorem toList_appendMembers (out : Text) (ms : List Member) :
    (appendMembers out ms).toList = out.toList ++ bytesOfMembers ms := by
  have hone (out : Text) (m : Member) :
      (appendAttributes (((out.pushU2 m.flags.bits).pushU2 m.name).pushU2 m.descriptor)
        m.attributes).toList = out.toList ++ bytesOfMember m := by
    simp [bytesOfMember]
  rw [appendMembers, toList_foldl hone]
  simp [bytesOfMembers]

theorem toNat_toUInt16 {n : Nat} (h : n < 65536) : n.toUInt16.toNat = n := Nat.mod_eq_of_lt h

theorem reads_fileAttribute {p : Pool} {a : Attribute} (hbody : decode p a.name a.bytes = .ok a.body)
    (hsize : a.bytes.size < 4294967296) (fault : AttributeFault → ReadFault) :
    Reads (fileAttribute p fault) (bytesOfAttribute a) a := by
  obtain ⟨name, bytes, body⟩ := a
  have hlength : bytes.size.toUInt32.toNat = bytes.size := Nat.mod_eq_of_lt hsize
  refine (reads_u2 _).bind ((reads_u4 _).bind ((reads_takeText hlength.symm).bindEnd
    ((reads_checkEnd _).bindEnd ?_)))
  simp only [hbody]
  exact reads_pure _

theorem reads_fileAttributes {p : Pool} {as : List Attribute} (hbodies : AttributesDecoded p as)
    (hfit : AttributesFit as) (fault : AttributeFault → ReadFault) :
    Reads (fileAttributes p fault) (bytesOfAttributes as) as := by
  refine (reads_u2 _).bind ((reads_checkEnd _).bind ?_)
  rw [toNat_toUInt16 hfit.1]
  exact reads_items fun a ha => reads_fileAttribute (hbodies a ha) (hfit.2 a ha) fault

theorem reads_member {p : Pool} {m : Member} (hbodies : AttributesDecoded p m.attributes)
    (hfit : AttributesFit m.attributes) (fault : Nat → AttributeFault → ReadFault) (i : Nat) :
    Reads (member p fault i) (bytesOfMember m) m :=
  (reads_u2 _).bind ((reads_u2 _).bind ((reads_u2 _).bind
    (reads_fileAttributes hbodies hfit (fault i)).bindPure))

/-! ## Files -/

/-- The bytes in front of a pool of `n` places. -/
def bytesOfHeader (minor major : UInt16) (n : Nat) : List UInt8 :=
  bytesOfU4 magic ++ (bytesOfU2 minor ++ (bytesOfU2 major ++ bytesOfU2 (n + 1).toUInt16))

/-- The bytes behind the pool of a class. -/
def bytesOfBody (c : ClassFile) : List UInt8 :=
  bytesOfU2 c.flags.bits ++ (bytesOfU2 c.thisClass ++ (bytesOfU2 c.superClass ++
    (bytesOfU2 c.interfaces.length.toUInt16 ++ (c.interfaces.flatMap bytesOfU2 ++
    (bytesOfMembers c.fields ++ (bytesOfMembers c.methods ++ bytesOfAttributes c.attributes))))))

def bytesOfFile (c : ClassFile) : List UInt8 :=
  bytesOfHeader c.minor c.major c.pool.entries.size ++
    (bytesOfEntries c.pool.entries.toList ++ bytesOfBody c)

theorem except_bind_ok {ε α β : Type} {m : Except ε α} {f : α → Except ε β} {b : β}
    (h : (m >>= f) = .ok b) : ∃ a, m = .ok a ∧ f a = .ok b := by
  cases m with
  | error e => cases h
  | ok a => exact ⟨a, rfl, h⟩

theorem toBytes_ok {c : ClassFile} {bytes : Text} (h : c.toBytes = .ok bytes) :
    bytes.toList = bytesOfFile c ∧ c.pool.entries.size < 65535 ∧
      ∀ t, some (.utf8 t) ∈ c.pool.entries.toList → t.toStored.size < 65536 := by
  unfold toBytes at h
  by_cases hn : 65535 < c.pool.entries.size + 1
  · simp [hn] at h
    cases h
  · simp only [hn, if_false] at h
    obtain ⟨out, hout, hbytes⟩ := except_bind_ok h
    obtain ⟨hentries, htexts⟩ := appendEntries_ok hout
    cases hbytes
    refine ⟨?_, by omega, htexts⟩
    have hpush := toList_foldl Text.toList_pushU2 c.interfaces
    simp [hpush, hentries, bytesOfFile, bytesOfHeader, bytesOfBody, magic]

theorem reads_header {minor major : UInt16} {n : Nat} (h : n < 65535) :
    Reads header (bytesOfHeader minor major n) (minor, major, (n + 1).toUInt16) := by
  have hcount : ((n + 1).toUInt16 == 0) = false := by
    rw [beq_eq_false_iff_ne, ne_eq, ← UInt16.toNat_inj, toNat_toUInt16 (by omega)]
    exact Nat.succ_ne_zero _
  refine (reads_u4 magic).bind ((reads_checkEnd _).bind ?_)
  simp only [bne_self_eq_false, Bool.false_eq_true, if_false]
  refine (reads_u2 _).bind ((reads_u2 _).bind ((reads_u2 _).bindEnd ((reads_checkEnd _).bind ?_)))
  simp only [hcount, Bool.false_eq_true, if_false]
  exact reads_pure _

theorem reads_classBody {c : ClassFile} (hwell : c.WellFormed) (hfits : c.Fits) :
    Reads (classBody c.minor c.major c.pool) (bytesOfBody c) c := by
  have hmembers (m) (hm : m ∈ c.fields ++ c.methods) (fault) (i : Nat) :
      Reads (member c.pool fault i) (bytesOfMember m) m :=
    reads_member (hwell.members m hm) (hfits.members m hm) fault i
  obtain ⟨i, hclass⟩ := hwell.isClass
  refine (reads_u2 _).bind ((reads_u2 _).bind ((reads_u2 _).bind ((reads_u2 _).bind ?_)))
  rw [toNat_toUInt16 hfits.interfaces]
  refine (reads_items fun a _ => reads_u2 a).bind ((reads_checkEnd _).bind ?_)
  simp only [hclass, bytesOfMembers, List.append_assoc]
  refine (reads_u2 _).bind ?_
  rw [toNat_toUInt16 hfits.fields]
  refine (reads_itemsFrom 0 fun m hm => hmembers m (List.mem_append_left _ hm) _).bind
    ((reads_u2 _).bind ?_)
  rw [toNat_toUInt16 hfits.methods]
  refine (reads_itemsFrom 0 fun m hm => hmembers m (List.mem_append_right _ hm) _).bind ?_
  exact (reads_fileAttributes hwell.attributes hfits.attributes _).bindPure

theorem reads_file {c : ClassFile} (hwell : c.WellFormed) (hfits : c.Fits)
    (hpool : c.pool.entries.size < 65535)
    (htexts : ∀ t, some (.utf8 t) ∈ c.pool.entries.toList → t.toStored.size < 65536) :
    Reads file (bytesOfFile c) c := by
  have hcount := toNat_toUInt16 (show c.pool.entries.size + 1 < 65536 by omega)
  have hsound (e) (he : some e ∈ c.pool.entries.toList) : e.IsSound := by
    cases e with
    | utf8 t => exact ⟨hwell.texts t he, htexts t he⟩
    | _ => trivial
  have hpoolRead : Reads
      (entriesFrom 1 (Vector.replicate ((c.pool.entries.size + 1).toUInt16.toNat - 1) none))
      (bytesOfEntries c.pool.entries.toList) c.pool :=
    reads_entriesFrom hwell.slotted hsound [] rfl (by simp; omega) (by simp; omega)
  exact (reads_header hpool).bind (hpoolRead.bind (reads_classBody hwell hfits))

/-! ## What is read fits -/

section

variable {α β : Type} {P : α → Prop} {Q : β → Prop}

/-- Whatever the file, what is read has the property. -/
def Gives (m : FileReader α) (P : α → Prop) : Prop := ∀ s a s', m.run s = .ok (a, s') → P a

theorem gives_pure {a : α} (h : P a) : Gives (pure a) P := by
  rintro _ _ _ ⟨⟩
  exact h

theorem gives_throw (e : ReadFault) : Gives (throw e) P := nofun

theorem gives_throw_bind (e : ReadFault) (k : α → FileReader β) : Gives (throw e >>= k) Q := nofun

theorem gives_any (m : FileReader α) : Gives m fun _ => True := fun _ _ _ _ => trivial

theorem Gives.bind {m : FileReader α} {f : α → FileReader β} (hm : Gives m P)
    (hf : ∀ a, P a → Gives (f a) Q) : Gives (m >>= f) Q := by
  intro s b s' h
  rw [StateT.run_bind] at h
  obtain ⟨⟨a, t⟩, ha, hb⟩ := except_bind_ok h
  exact hf a (hm s a t ha) t b s' hb

theorem Gives.skip {m : FileReader α} {f : α → FileReader β} (hf : ∀ a, Gives (f a) Q) :
    Gives (m >>= f) Q :=
  (gives_any m).bind fun a _ => hf a

theorem gives_items {item : FileReader α} (h : Gives item P) :
    ∀ n, Gives (items item n) fun as => as.length = n ∧ ∀ a ∈ as, P a
  | 0 => gives_pure ⟨rfl, nofun⟩
  | n + 1 => h.bind fun _ ha => (gives_items h n).bind fun _ has =>
      gives_pure ⟨congrArg (· + 1) has.1, List.forall_mem_cons.2 ⟨ha, has.2⟩⟩

theorem gives_itemsFrom {item : Nat → FileReader α} (h : ∀ i, Gives (item i) P) :
    ∀ n i, Gives (itemsFrom item i n) fun as => as.length = n ∧ ∀ a ∈ as, P a
  | 0, _ => gives_pure ⟨rfl, nofun⟩
  | n + 1, i => (h i).bind fun _ ha => (gives_itemsFrom h n (i + 1)).bind fun _ has =>
      gives_pure ⟨congrArg (· + 1) has.1, List.forall_mem_cons.2 ⟨ha, has.2⟩⟩

end

theorem gives_take (n : Nat) : Gives (take n) (·.size ≤ n) := by
  intro s t s' h
  change (if s.ended.isSome then pure {} else if n ≤ s.data.size - s.pos then _ else _ :
    FileReader Text).run s = _ at h
  split at h
  · cases h
    exact Nat.zero_le n
  · split at h <;> cases h
    all_goals
      rw [Text.size_eq, Text.toList_slice, List.length_take, List.length_drop, ← Text.size_eq]
      omega

theorem gives_fileAttribute (p : Pool) (fault : AttributeFault → ReadFault) :
    Gives (fileAttribute p fault) (·.bytes.size < 4294967296) := by
  refine .skip fun _ => .skip fun n => (gives_take _).bind fun bytes hbytes => .skip fun _ => ?_
  split
  · exact gives_pure (Nat.lt_of_le_of_lt hbytes n.toNat_lt)
  · exact gives_throw _

theorem gives_fileAttributes (p : Pool) (fault : AttributeFault → ReadFault) :
    Gives (fileAttributes p fault) AttributesFit := by
  refine .skip fun n => .skip fun _ s as s' h => ?_
  obtain ⟨hlength, hsizes⟩ := gives_items (gives_fileAttribute p fault) _ s as s' h
  exact ⟨hlength ▸ n.toNat_lt, hsizes⟩

theorem gives_member (p : Pool) (fault : Nat → AttributeFault → ReadFault) (i : Nat) :
    Gives (member p fault i) fun m => AttributesFit m.attributes :=
  .skip fun _ => .skip fun _ => .skip fun _ =>
    (gives_fileAttributes p (fault i)).bind fun _ h => gives_pure h

theorem gives_classBody (minor major : UInt16) (pool : Pool) :
    Gives (classBody minor major pool) Fits := by
  refine .skip fun _ => .skip fun _ => .skip fun _ => .skip fun n => ?_
  refine (gives_items (gives_any u2) n.toNat).bind fun interfaces hinterfaces => .skip fun _ => ?_
  split
  · refine .skip fun n => (gives_itemsFrom (gives_member pool .field) n.toNat 0).bind ?_
    intro fields hfields
    refine .skip fun n => (gives_itemsFrom (gives_member pool .method) n.toNat 0).bind ?_
    intro methods hmethods
    refine (gives_fileAttributes pool .classAttributes).bind fun attributes hattributes => ?_
    have hmembers : ∀ m ∈ fields ++ methods, AttributesFit m.attributes :=
      List.forall_mem_append.2 ⟨hfields.2, hmethods.2⟩
    exact gives_pure ⟨hinterfaces.1 ▸ UInt16.toNat_lt _, hfields.1 ▸ UInt16.toNat_lt _,
      hmethods.1 ▸ UInt16.toNat_lt _, hmembers, hattributes⟩
  · exact gives_throw_bind _ _

theorem gives_file : Gives file Fits :=
  .skip fun _ => .skip fun _ => gives_classBody _ _ _

/-! ## The round trip -/

theorem fits_of_ofBytes {data : Text} {c : ClassFile} (h : ofBytes data = .ok c) : c.Fits := by
  unfold ofBytes at h
  cases hfile : file.run { data } with
  | error e => rw [hfile] at h; cases h
  | ok r =>
    rw [hfile] at h
    cases h
    exact gives_file _ _ _ hfile

theorem ofBytes_toBytes {c : ClassFile} {bytes : Text} (hwell : c.WellFormed) (hfits : c.Fits)
    (h : c.toBytes = .ok bytes) : ofBytes bytes = .ok c := by
  obtain ⟨hbytes, hpool, htexts⟩ := toBytes_ok h
  have hread := reads_file hwell hfits hpool htexts bytes 0 [] (by simp [hbytes])
  rw [ofBytes, hread]
  rfl

/-- A class that can be written is read back as it was exactly if its counts and lengths fit. -/
theorem ofBytes_toBytes_iff {c : ClassFile} {bytes : Text} (hwell : c.WellFormed)
    (h : c.toBytes = .ok bytes) : ofBytes bytes = .ok c ↔ c.Fits :=
  ⟨fits_of_ofBytes, fun hfits => ofBytes_toBytes hwell hfits h⟩

/-- A class with a number of interfaces. -/
def crowded (n : Nat) : ClassFile where
  pool := ⟨#[some (.utf8 "A"), some (.cls 1), some (.long 7), none, some (.utf8 "SourceFile")]⟩
  thisClass := 2
  interfaces := List.replicate n 2
  attributes := [⟨5, .ofList [0, 1], .index 1⟩]

theorem crowded_wellFormed (n : Nat) : (crowded n).WellFormed where
  slotted := .cons (.utf8 "A") (.cons (.cls 1) (.cons (.long 7) (.cons (.utf8 "SourceFile") .nil)))
  texts := by simp [crowded]; decide
  isClass := ⟨1, rfl⟩
  members := nofun
  attributes := by
    intro a ha
    obtain rfl := List.mem_singleton.1 ha
    have hname : (crowded n).pool.utf8 5 = "SourceFile" := rfl
    have htext : ("SourceFile" : Text).toString? = some "SourceFile" := by decide
    unfold decode
    simp only [hname, htext]
    rfl

theorem crowded_toBytes (n : Nat) : ∃ bytes, (crowded n).toBytes = .ok bytes := ⟨_, rfl⟩

/-- One interface more than the count can say, and the class is written but not read back. -/
theorem ofBytes_toBytes_iff_crowded : ∃ bytes, (crowded 65536).WellFormed ∧
    (crowded 65536).toBytes = .ok bytes ∧ ofBytes bytes ≠ .ok (crowded 65536) := by
  obtain ⟨bytes, hbytes⟩ := crowded_toBytes 65536
  refine ⟨bytes, crowded_wellFormed _, hbytes, fun h => ?_⟩
  have hfits := (ofBytes_toBytes_iff (crowded_wellFormed _) hbytes).1 h
  have hcount := hfits.interfaces
  rw [crowded, List.length_replicate] at hcount
  omega

end Javelin.ClassFile
