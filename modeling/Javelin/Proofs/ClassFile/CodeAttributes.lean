import Javelin.Proofs.ClassFile.Building
import Javelin.Proofs.ClassFile.RoundTrip

/-!
# Attributes that keep their meaning

The decoded form of an attribute depends on the pool, since names are looked up there. What is
decoded once stays so when the pool grows (`Attribute.Lasts`), and code attributes are read as they
were written, as long as their tables fit (`decode_code`).
-/

namespace Javelin.ClassFile

variable {α β : Type}

/-! ## Readers of bodies -/

/-- Reading takes the bytes `bs`, wherever they stand in a body, and gives what `f` makes of the
offset behind them. -/
def Takes (r : BodyReader α) (bs : List UInt8) (f : Nat → α) : Prop :=
  ∀ t i rest, i ≤ t.size → t.toList.drop i = bs ++ rest →
    r t i = .ok (f (i + bs.length), i + bs.length)

/-- What is there reaches to the end of a body. -/
theorem le_size_of_drop {t : Text} {i : Nat} {bs rest : List UInt8} (hi : i ≤ t.size)
    (h : t.toList.drop i = bs ++ rest) : i + bs.length ≤ t.size := by
  have hlength := congrArg List.length h
  rw [List.length_drop, List.length_append, ← Text.size_eq] at hlength
  omega

theorem takes_end (f : Nat → α) : Takes (do return f (← get)) [] f := fun _ _ _ _ _ => rfl

theorem takes_pure (a : α) : Takes (pure a) [] fun _ => a := fun _ _ _ _ _ => rfl

theorem Takes.bind {r : BodyReader α} {k : α → BodyReader β} {bs bs' : List UInt8} {a : α}
    {f : Nat → β} (hr : Takes r bs fun _ => a) (hk : Takes (k a) bs' f) :
    Takes (r >>= k) (bs ++ bs') f := by
  intro t i rest hi h
  rw [List.append_assoc] at h
  have hrest : t.toList.drop (i + bs.length) = bs' ++ rest := by
    rw [← List.drop_drop, h, List.drop_left]
  change (r t i >>= fun x => k x.1 t x.2) = _
  rw [hr t i _ hi h, List.length_append, ← Nat.add_assoc]
  exact hk t _ rest (le_size_of_drop hi h) hrest

theorem Takes.bindPure {r : BodyReader α} {f : α → β} {bs : List UInt8} {a : α}
    (hr : Takes r bs fun _ => a) : Takes (r >>= fun a => pure (f a)) bs fun _ => f a := by
  have h : Takes (r >>= fun a => pure (f a)) (bs ++ []) fun _ => f a := hr.bind (takes_pure (f a))
  rwa [List.append_nil] at h

theorem takes_u2 (v : UInt16) : Takes bodyU2 (bytesOfU2 v) fun _ => v := by
  intro t i rest hi h
  have hsecond : t.toList.drop (i + 1) = v.toUInt8 :: rest := Text.drop_succ h
  have hsize : i + 2 ≤ t.size := le_size_of_drop hi h
  change (dite (i + 2 ≤ t.size) _ _ : BodyReader UInt16) t i = _
  rw [dif_pos hsize]
  change Except.ok ((t.get i _).toUInt16 <<< 8 ||| (t.get (i + 1) _).toUInt16, i + 2) = _
  rw [Text.get_of_drop h, Text.get_of_drop hsecond, joinU2]
  rfl

theorem takes_u4 (v : UInt32) : Takes bodyU4 (bytesOfU4 v) fun _ => v.toNat := by
  have hv : (v >>> 16).toUInt16.toNat * 65536 + v.toUInt16.toNat = v.toNat := by
    have := v.toNat_lt
    simp [Nat.shiftRight_eq_div_pow]
    omega
  rw [← hv]
  exact (takes_u2 _).bind (takes_u2 _).bindPure

theorem takes_bytes (t : Text) : Takes (bodyBytes t.size) t.toList fun _ => t := by
  intro u i rest hi h
  have hsize : i + t.size ≤ u.size := le_size_of_drop hi h
  change (ite (i + t.size ≤ u.size) _ _ : BodyReader Text) u i = _
  rw [if_pos hsize]
  have hslice : u.slice i (i + t.size) = t := by
    apply Text.ext_toList
    rw [Text.toList_slice, h, Nat.add_sub_cancel_left, Text.size_eq, List.take_left]
  change Except.ok (u.slice i (i + t.size), i + t.size) = _
  rw [hslice]
  rfl

theorem takes_items {item : BodyReader α} {encode : α → List UInt8} {as : List α}
    (h : ∀ a ∈ as, Takes item (encode a) fun _ => a) :
    Takes (bodyItems item as.length) (as.flatMap encode) fun _ => as := by
  induction as with
  | nil => exact takes_pure []
  | cons a as ih =>
    obtain ⟨ha, has⟩ := List.forall_mem_cons.mp h
    exact ha.bind (ih has).bindPure

theorem takes_list {item : BodyReader α} {encode : α → List UInt8} {as : List α}
    (hlength : as.length < 65536) (h : ∀ a ∈ as, Takes item (encode a) fun _ => a) :
    Takes (bodyList item) (bytesOfU2 as.length.toUInt16 ++ as.flatMap encode) fun _ => as := by
  refine (takes_u2 _).bind ?_
  rw [toNat_toUInt16 hlength]
  exact takes_items h

/-! ## Code -/

def bytesOfHandler (h : Handler) : List UInt8 :=
  bytesOfU2 h.start ++ (bytesOfU2 h.stop ++ (bytesOfU2 h.target ++ bytesOfU2 h.catchType))

/-- The bytes of a code attribute. -/
def bytesOfCode (c : Code) : List UInt8 :=
  bytesOfU2 c.maxStack ++ (bytesOfU2 c.maxLocals ++ (bytesOfU4 c.bytes.size.toUInt32 ++
    (c.bytes.toList ++ ((bytesOfU2 c.handlers.length.toUInt16 ++
      c.handlers.flatMap bytesOfHandler) ++ bytesOfAttributes c.attributes))))

theorem toList_codeBytes (c : Code) : (Builder.codeBytes c).toList = bytesOfCode c := by
  have hone (out : Text) (h : Handler) :
      (Builder.appendHandler out h).toList = out.toList ++ bytesOfHandler h := by
    simp [Builder.appendHandler, bytesOfHandler]
  rw [Builder.codeBytes]
  simp [toList_foldl hone, bytesOfCode]

/-- A code attribute has no more handlers than their count can say, and its attributes have no more
bytes than their lengths. -/
structure Code.Fits (c : Code) : Prop where
  handlers : c.handlers.length < 65536
  attributes : ∀ a ∈ c.attributes, a.bytes.size < 4294967296

theorem takes_handler (h : Handler) : Takes bodyHandler (bytesOfHandler h) fun _ => h :=
  (takes_u2 _).bind ((takes_u2 _).bind ((takes_u2 _).bind (takes_u2 _).bindPure))

theorem takes_attributeAt {a : Attribute} (h : a.bytes.size < 4294967296) :
    Takes attributeAt (bytesOfAttribute a) fun offset => (a.name, a.bytes, offset) := by
  have hlength : a.bytes.size.toUInt32.toNat = a.bytes.size := Nat.mod_eq_of_lt h
  refine (takes_u2 _).bind ((takes_u4 _).bind ?_)
  rw [hlength, ← List.append_nil a.bytes.toList]
  exact (takes_bytes _).bind (takes_end _)

/-- What stands in front of the attributes of a code attribute, behind their number. -/
def bytesOfCodeHead (h : CodeHead) : List UInt8 :=
  bytesOfU2 h.maxStack ++ (bytesOfU2 h.maxLocals ++ (bytesOfU4 h.bytes.size.toUInt32 ++
    (h.bytes.toList ++ ((bytesOfU2 h.handlers.length.toUInt16 ++
      h.handlers.flatMap bytesOfHandler) ++ bytesOfU2 h.count.toUInt16))))

theorem takes_codeHead {h : CodeHead} (hbytes : h.bytes.size < 4294967296)
    (hhandlers : h.handlers.length < 65536) (hcount : h.count < 65536) :
    Takes codeHead (bytesOfCodeHead h) fun offset => (h, offset) := by
  have hlength : h.bytes.size.toUInt32.toNat = h.bytes.size := Nat.mod_eq_of_lt hbytes
  rw [bytesOfCodeHead, ← List.append_nil (bytesOfU2 h.count.toUInt16)]
  refine (takes_u2 _).bind ((takes_u2 _).bind ((takes_u4 _).bind ?_))
  rw [hlength]
  refine (takes_bytes _).bind ((takes_list hhandlers fun a _ => takes_handler a).bind
    ((takes_u2 _).bind ?_))
  rw [toNat_toUInt16 hcount]
  exact takes_end _

/-- The attributes inside a body are read one after the other. -/
theorem nestedFrom_of_drop {p : Pool} (outer : Text) {bytes : Text} {offset : Nat}
    {as : List Attribute} {rest : List UInt8} (hoffset : offset ≤ bytes.size)
    (h : bytes.toList.drop offset = as.flatMap bytesOfAttribute ++ rest)
    (hsize : ∀ a ∈ as, a.bytes.size < 4294967296) (hbodies : AttributesDecoded p as) :
    nestedFrom p outer bytes offset as.length = .ok as := by
  induction as generalizing offset with
  | nil => rw [List.length_nil, nestedFrom]; rfl
  | cons a as ih =>
    obtain ⟨ha, has⟩ := List.forall_mem_cons.mp hsize
    obtain ⟨hbody, hrest⟩ := List.forall_mem_cons.mp hbodies
    rw [List.flatMap_cons, List.append_assoc] at h
    have hread := takes_attributeAt ha bytes offset _ hoffset h
    have hnext : bytes.toList.drop (offset + (bytesOfAttribute a).length) =
        as.flatMap bytesOfAttribute ++ rest := by
      rw [← List.drop_drop, h, List.drop_left]
    have hnested := ih (le_size_of_drop hoffset h) hnext has hrest
    rw [List.length_cons, nestedFrom]
    split
    next name inner next i heq =>
      rw [hread] at heq
      cases heq
      rw [hbody, hnested]
      obtain ⟨name, inner, body⟩ := a
      rfl
    next o heq =>
      rw [hread] at heq
      cases heq

/-- What a code attribute is decoded to, whatever stands behind the attributes that are counted. -/
theorem decode_code_of_toList {p : Pool} {n : UInt16} {bytes : Text} {h : CodeHead}
    {as : List Attribute} {rest : List UInt8} (hname : p.utf8 n = "Code")
    (hlist : bytes.toList = bytesOfCodeHead h ++ (as.flatMap bytesOfAttribute ++ rest))
    (hbytes : h.bytes.size < 4294967296) (hhandlers : h.handlers.length < 65536)
    (hcount : h.count = as.length) (has : as.length < 65536)
    (hsize : ∀ a ∈ as, a.bytes.size < 4294967296) (hbodies : AttributesDecoded p as) :
    decode p n bytes = .ok (.code ⟨h.maxStack, h.maxLocals, h.bytes, h.handlers, as⟩) := by
  have hread := takes_codeHead hbytes hhandlers (hcount ▸ has) bytes 0 _ (Nat.zero_le _) hlist
  have hoffset := le_size_of_drop (Nat.zero_le _) hlist
  rw [Nat.zero_add] at hread hoffset
  have hbody : readBody codeHead "Code" bytes = .ok (h, (bytesOfCodeHead h).length) := by
    rw [readBody, hread]
  have hnested := nestedFrom_of_drop "Code" hoffset (by rw [hlist, List.drop_left]) hsize hbodies
  unfold decode
  simp only [hname]
  have htext : ("Code" : Text).toString? = some "Code" := by decide
  simp only [htext, Option.getD_some, hbody]
  change (nestedFrom p "Code" bytes (bytesOfCodeHead h).length h.count >>= fun as => _) = _
  rw [hcount, hnested]
  rfl

/-- A code attribute is read as it was written, with as many attributes as are counted. -/
theorem decode_code {p : Pool} {n : UInt16} {c : Code} (hname : p.utf8 n = "Code")
    (hsize : c.bytes.size < 4294967296) (hfits : c.Fits)
    (hbodies : AttributesDecoded p c.attributes) : decode p n (Builder.codeBytes c) =
      .ok (.code { c with attributes := c.attributes.take (c.attributes.length % 65536) }) := by
  have hcount : (c.attributes.take (c.attributes.length % 65536)).length =
      c.attributes.length % 65536 :=
    List.length_take_of_le (Nat.mod_le _ _)
  have hlist : (Builder.codeBytes c).toList = bytesOfCodeHead ⟨c.maxStack, c.maxLocals, c.bytes,
        c.handlers, c.attributes.length % 65536⟩ ++
      ((c.attributes.take (c.attributes.length % 65536)).flatMap bytesOfAttribute ++
        (c.attributes.drop (c.attributes.length % 65536)).flatMap bytesOfAttribute) := by
    have hmod : (c.attributes.length % 65536).toUInt16 = c.attributes.length.toUInt16 :=
      UInt16.toNat_inj.1 (by simp [UInt16.toNat_ofNat'])
    rw [← List.flatMap_append, List.take_append_drop, toList_codeBytes]
    simp only [bytesOfCode, bytesOfCodeHead, bytesOfAttributes, hmod, List.append_assoc]
  refine decode_code_of_toList hname hlist hsize hfits.handlers hcount.symm ?_
    (fun a ha => hfits.attributes a (List.mem_of_mem_take ha))
    fun a ha => hbodies a (List.mem_of_mem_take ha)
  rw [hcount]
  exact Nat.mod_lt _ (by decide)

/-- Handlers that their count does not count are read as what stands behind them: the first one as
an attribute, whose name was never asked for. -/
theorem decode_code_uncounted {p : Pool} {n name : UInt16} {c : Code} {hs : List Handler}
    {body : Attribute.Body} (hname : p.utf8 n = "Code") (hsize : c.bytes.size < 4294967296)
    (hhandlers : c.handlers = ⟨1, name, 0, 0⟩ :: hs) (hcount : c.handlers.length.toUInt16 = 0)
    (hbody : decode p name {} = .ok body) : decode p n (Builder.codeBytes c) =
      .ok (.code ⟨c.maxStack, c.maxLocals, c.bytes, [], [⟨name, {}, body⟩]⟩) := by
  have hlist : (Builder.codeBytes c).toList =
      bytesOfCodeHead ⟨c.maxStack, c.maxLocals, c.bytes, [], 1⟩ ++
        ([(⟨name, {}, body⟩ : Attribute)].flatMap bytesOfAttribute ++
          (hs.flatMap bytesOfHandler ++ bytesOfAttributes c.attributes)) := by
    rw [toList_codeBytes, bytesOfCode, hcount, hhandlers]
    have hzero : bytesOfU4 (UInt32.ofNat (∅ : Text).size) = bytesOfU2 0 ++ bytesOfU2 0 := by decide
    simp [bytesOfCodeHead, bytesOfHandler, bytesOfAttribute, hzero]
  exact decode_code_of_toList hname hlist hsize (Nat.zero_lt_succ _) rfl
    (Nat.lt_of_sub_eq_succ rfl) (List.forall_mem_singleton.2 (Nat.zero_lt_succ _))
    (List.forall_mem_singleton.2 hbody)

theorem decode_deprecated {p : Pool} {i : UInt16} (hname : p.utf8 i = "Deprecated") (bytes : Text) :
    decode p i bytes = .ok .marker := by
  unfold decode
  have htext : ("Deprecated" : Text).toString? = some "Deprecated" := by decide
  simp only [hname, htext, Option.getD_some]
  rfl

/-- An index that leads nowhere names no kind of attribute. -/
theorem decode_unnamed {p : Pool} {i : UInt16} (h : p.get? i = none) (bytes : Text) :
    decode p i bytes = .ok .other := by
  have hname : p.utf8 i = {} := by rw [Pool.utf8, h]
  unfold decode
  have htext : ({} : Text).toString? = some "" := by decide
  simp only [hname, htext, Option.getD_some]
  rfl

/-! ## Meaning that lasts -/

theorem Text.eq_of_toString? {t : Text} {s : String} (h : t.toString? = some s) :
    t = Text.ofString s := by
  unfold Text.toString? String.fromUTF8? at h
  split at h
  · cases h
    rfl
  · cases h

/-- Only code attributes need the pool for more than their own name. -/
theorem decode_congr {p q : Pool} {n : UInt16} (h : p.utf8 n = q.utf8 n) (hcode : p.utf8 n ≠ "Code")
    (bytes : Text) : decode p n bytes = decode q n bytes := by
  unfold decode
  rw [← h]
  dsimp only
  split
  next heq =>
    refine absurd ?_ hcode
    cases htext : (p.utf8 n).toString? with
    | none =>
      rw [htext] at heq
      exact absurd heq (by decide)
    | some s =>
      rw [htext, Option.getD_some] at heq
      rw [Text.eq_of_toString? htext, heq]
  all_goals rfl

/-- Whatever the pool grows to, the attribute decodes to what it was decoded to. -/
def Attribute.Lasts (p : Pool) (a : Attribute) : Prop :=
  ∀ q, p.Within q → decode q a.name a.bytes = .ok a.body

theorem Attribute.Lasts.grow {p q : Pool} {a : Attribute} (h : a.Lasts p) (hpool : p.Within q) :
    a.Lasts q :=
  fun r hr => h r (hpool.trans hr)

theorem Pool.Within.utf8 {p q : Pool} {i : UInt16} {t : Text} (h : p.Within q)
    (hi : p.get? i = some (.utf8 t)) : q.utf8 i = t := by
  rw [Pool.utf8, h.get? hi]

namespace Builder

theorem lasts_attributeOf {name bytes : Text} {b : Builder} (hname : name ≠ "Code") (hb : b.Sound)
    (hfault : ((attributeOf name bytes).run b).2.fault = none) :
    ((attributeOf name bytes).run b).1.Lasts ((attributeOf name bytes).run b).2.file.pool := by
  obtain ⟨n, body, ha, hn, hbody⟩ := attributeOf_spec hb hfault
  intro q hq
  have hp := (Pool.Within.refl _).utf8 hn
  rw [← hp] at hname
  rw [ha, ← decode_congr (hp.trans (hq.utf8 hn).symm) hname, hbody]

/-- Without a fault the length of the code is one that can be written. -/
theorem code_run {c : Code} {b : Builder} (hfault : ((code c).run b).2.fault = none) :
    c.bytes.size < 65536 ∧ (code c).run b = (attributeOf "Code" (codeBytes c)).run b := by
  by_cases hsize : (c.bytes.size == 0 || decide (65536 ≤ c.bytes.size)) = true
  · have hrun : (code c).run b = (attributeOf "Code" (codeBytes c)).run
        ((fail (.codeLength c.bytes.size)).run b).2 := by
      rw [code, if_pos hsize]
      rfl
    rw [hrun] at hfault
    cases (adds_attributeOf _ _ _).fault hfault
  · have hrun : (code c).run b = (attributeOf "Code" (codeBytes c)).run b := by
      rw [code, if_neg hsize]
    simp at hsize
    exact ⟨by omega, hrun⟩

/-- A code attribute lasts if the attributes inside it do and its tables fit. -/
theorem lasts_code {c : Code} {b : Builder} (hb : b.Sound)
    (hfault : ((code c).run b).2.fault = none) (hfits : c.Fits)
    (hattributes : ∀ a ∈ c.attributes, a.Lasts b.file.pool) :
    ((code c).run b).1.Lasts ((code c).run b).2.file.pool := by
  obtain ⟨hsize, hrun⟩ := code_run hfault
  rw [hrun] at hfault ⊢
  have hgrown := adds_attributeOf "Code" (codeBytes c) b
  obtain ⟨n, body, ha, hn, hbody⟩ := attributeOf_spec hb hfault
  have hdecode {q : Pool} (hq : ((attributeOf "Code" (codeBytes c)).run b).2.file.pool.Within q) :=
    decode_code (hq.utf8 hn) (show c.bytes.size < 4294967296 by omega) hfits
      fun a h => hattributes a h q (hgrown.pool.trans hq)
  rw [hdecode (.refl _)] at hbody
  cases hbody
  intro q hq
  rw [ha]
  exact hdecode hq

end Builder

/-- The bound on the handlers is needed: the attribute that uncounted handlers are read as has no
name yet when the code is made, and can get one afterwards. -/
theorem not_lasts_uncounted {p : Pool} {n : UInt16} {c : Code} {hs : List Handler}
    (hname : p.get? n = some (.utf8 "Code")) (hsize : c.bytes.size < 4294967296)
    (hroom : p.entries.size + 1 < 65536)
    (hhandlers : c.handlers = ⟨1, (p.entries.size + 1).toUInt16, 0, 0⟩ :: hs)
    (hcount : c.handlers.length.toUInt16 = 0) (body : Attribute.Body) :
    ¬ Attribute.Lasts p ⟨n, Builder.codeBytes c, body⟩ := by
  intro hlasts
  have hunnamed : p.get? (p.entries.size + 1).toUInt16 = none := by
    have hi : (p.entries.size + 1).toUInt16.toNat = p.entries.size + 1 := Nat.mod_eq_of_lt hroom
    unfold Pool.get?
    split
    · rfl
    · rw [hi, Nat.add_sub_cancel, Array.getElem?_eq_none (Nat.le_refl _)]
      rfl
  have hbefore := hlasts p (.refl p)
  have hgrown : p.Within ⟨p.entries.push (some (.utf8 "Deprecated")) ++ #[]⟩ := by
    simp [Pool.Within]
  have hafter := hlasts _ hgrown
  rw [decode_code_uncounted ((Pool.Within.refl p).utf8 hname) hsize hhandlers hcount
    (decode_unnamed hunnamed _)] at hbefore
  rw [decode_code_uncounted (hgrown.utf8 hname) hsize hhandlers hcount
    (decode_deprecated ((Pool.Within.refl _).utf8 (Builder.get?_push _ hroom)) _)] at hafter
  cases hbefore.trans hafter.symm

end Javelin.ClassFile
