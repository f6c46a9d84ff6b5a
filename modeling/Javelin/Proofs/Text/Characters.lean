import Javelin.Text.Utf8

/-!
# Texts as lists of bytes

`Text.toList` is the view of a text in which its operations are the familiar ones on lists:
cutting is `take` and `drop`, searching is `any` and `all`, and the front of a text is a prefix.
-/

namespace Javelin.Text

theorem ext_toList {t u : Text} (h : t.toList = u.toList) : t = u := by
  obtain ⟨⟨a⟩⟩ := t
  obtain ⟨⟨b⟩⟩ := u
  simp only [toList, Array.toList_inj] at h
  rw [h]

theorem size_eq (t : Text) : t.size = t.toList.length := rfl

theorem isEmpty_eq (t : Text) : t.isEmpty = t.toList.isEmpty := by
  simp only [isEmpty, toList, ← ByteArray.size_data, Array.isEmpty_toList]
  rfl

theorem at0_eq (t : Text) (i : Nat) : t.at0 i = t.toList.getD i 0 := by
  unfold at0
  split
  next h => simp [toList, ByteArray.getElem_eq_getElem_data, List.getD_eq_getElem?_getD,
    Array.getElem?_eq_getElem (show i < t.bytes.data.size from h)]
  next h => simp [toList, List.getD_eq_getElem?_getD,
    Array.getElem?_eq_none (show t.bytes.data.size ≤ i from Nat.le_of_not_lt h)]

theorem get?_eq (t : Text) (i : Nat) : t.get? i = t.toList[i]? := by
  unfold get?
  split
  next h => simp [toList, ByteArray.getElem_eq_getElem_data,
    Array.getElem?_eq_getElem (show i < t.bytes.data.size from h)]
  next h => simp [toList, Array.getElem?_eq_none (show t.bytes.data.size ≤ i from Nat.le_of_not_lt h)]

theorem get_eq (t : Text) (i : Nat) (h : i < t.size) : t.get i h = t.toList.get ⟨i, h⟩ := by
  unfold get toList
  rw [List.get_eq_getElem]
  exact (Array.getElem_toList _).symm

/-- The byte at an offset is the first of those from there on. -/
theorem get_of_drop {t : Text} {i : Nat} {b : UInt8} {rest : List UInt8}
    (h : t.toList.drop i = b :: rest) (hi : i < t.size) : t.get i hi = b := by
  have hb : t.toList[i]? = some b := by rw [← List.head?_drop, h, List.head?_cons]
  rw [get_eq, List.get_eq_getElem]
  exact (List.getElem_eq_iff hi).2 hb

theorem at0_of_drop {t : Text} {i : Nat} {b : UInt8} {rest : List UInt8}
    (h : t.toList.drop i = b :: rest) : t.at0 i = b := by
  rw [at0_eq, List.getD_eq_getElem?_getD, ← List.head?_drop, h]
  rfl

theorem drop_succ {t : Text} {i : Nat} {b : UInt8} {rest : List UInt8}
    (h : t.toList.drop i = b :: rest) : t.toList.drop (i + 1) = rest := by
  rw [← List.drop_drop, h, List.drop_one, List.tail_cons]

theorem lt_size_of_drop {t : Text} {i : Nat} {b : UInt8} {rest : List UInt8}
    (h : t.toList.drop i = b :: rest) : i < t.size := by
  have hl := congrArg List.length h
  rw [List.length_drop, List.length_cons, ← size_eq] at hl
  omega

@[simp] theorem toList_empty : empty.toList = [] := rfl

@[simp] theorem toList_emptyCollection : (∅ : Text).toList = [] := rfl

@[simp] theorem toList_ofList (bs : List UInt8) : (ofList bs).toList = bs := rfl

@[simp] theorem toList_push (t : Text) (b : UInt8) : (t.push b).toList = t.toList ++ [b] := by
  simp [toList, push]

@[simp] theorem toList_append (t u : Text) : (t ++ u).toList = t.toList ++ u.toList :=
  ByteArray.toList_data_append

theorem empty_append (t : Text) : (∅ : Text) ++ t = t := ext_toList (by simp)

theorem append_empty (t : Text) : t ++ (∅ : Text) = t := ext_toList (by simp)

theorem append_assoc (t u v : Text) : t ++ u ++ v = t ++ (u ++ v) := ext_toList (by simp)

@[simp] theorem toList_slice (t : Text) (i j : Nat) :
    (t.slice i j).toList = (t.toList.drop i).take (j - i) := by
  simp [toList, slice, ByteArray.data_extract]

@[simp] theorem toList_drop (t : Text) (n : Nat) : (t.drop n).toList = t.toList.drop n := by
  rw [drop, toList_slice, size_eq]
  exact List.take_of_length_le (by simp)

@[simp] theorem toList_dropRight (t : Text) (n : Nat) :
    (t.dropRight n).toList = t.toList.take (t.toList.length - n) := by
  rw [dropRight, toList_slice, size_eq]
  rfl

theorem toList_concat (ts : List Text) : (concat ts).toList = ts.flatMap toList := by
  have hfold : ∀ acc : Text, (ts.foldl (· ++ ·) acc).toList = acc.toList ++ ts.flatMap toList := by
    induction ts with
    | nil => simp
    | cons t ts ih =>
      intro acc
      rw [List.foldl_cons, ih, toList_append, List.flatMap_cons, List.append_assoc]
  exact hfold empty

/-! ## Folds -/

/-- The loop of a fold goes through the bytes that are left. -/
theorem foldl_rest {β : Type} (f : β → UInt8 → β) {a : ByteArray} (h : a.size ≤ a.size)
    (rest : List UInt8) : ∀ (seen : List UInt8) (b : β), a.data.toList = seen ++ rest →
    ByteArray.foldlM.loop (m := Id) (fun x y => pure (f x y)) a a.size h rest.length seen.length b =
      rest.foldl f b := by
  induction rest with
  | nil =>
    intro seen b _
    unfold ByteArray.foldlM.loop
    split <;> rfl
  | cons byte rest ih =>
    intro seen b hs
    have hsize : a.size = (seen ++ byte :: rest).length := congrArg List.length hs
    have hlt : seen.length < a.size := by simp [hsize]
    have hbyte : a[seen.length] = byte := by
      simp [ByteArray.getElem_eq_getElem_data, ← Array.getElem_toList, hs]
    unfold ByteArray.foldlM.loop
    rw [dif_pos hlt]
    have hnext := ih (seen ++ [byte]) (f b byte) (by simp [hs])
    simpa [hbyte] using hnext

theorem foldl_eq {β : Type} (f : β → UInt8 → β) (t : Text) (b : β) :
    t.bytes.foldl f b = t.toList.foldl f b := by
  unfold ByteArray.foldl ByteArray.foldlM
  rw [dif_pos (Nat.le_refl _)]
  exact foldl_rest f (Nat.le_refl _) t.toList [] b rfl

theorem foldl_push (p : UInt8 → Bool) (bs : List UInt8) (acc : ByteArray) :
    (bs.foldl (fun acc b => if p b then acc.push b else acc) acc).data.toList =
      acc.data.toList ++ bs.filter p := by
  induction bs generalizing acc with
  | nil => simp
  | cons b bs ih =>
    rw [List.foldl_cons, ih]
    cases hb : p b <;> simp [hb]

@[simp] theorem toList_filter (t : Text) (p : UInt8 → Bool) :
    (t.filter p).toList = t.toList.filter p := by
  unfold filter
  rw [foldl_eq]
  exact foldl_push p t.toList ByteArray.empty

/-! ## Searching -/

theorem findFrom_isSome (t : Text) (p : UInt8 → Bool) (n : Nat) : ∀ i, i + n = t.toList.length →
    (t.findFrom p i n).isSome = (t.toList.drop i).any p := by
  induction n with
  | zero =>
    intro i hi
    rw [List.drop_of_length_le (by omega)]
    rfl
  | succ n ih =>
    intro i hi
    have hlt : i < t.toList.length := by omega
    have hget : t.at0 i = t.toList[i] := by simp [at0_eq, List.getD_eq_getElem?_getD, hlt]
    rw [List.drop_eq_getElem_cons hlt, List.any_cons, findFrom, hget, ← ih (i + 1) (by omega)]
    cases hp : p t.toList[i] <;> simp

theorem any_eq (t : Text) (p : UInt8 → Bool) : t.any p = t.toList.any p := by
  unfold any findIdx?
  rw [findFrom_isSome t p t.size 0 (by rw [size_eq, Nat.zero_add])]
  rfl

theorem all_eq (t : Text) (p : UInt8 → Bool) : t.all p = t.toList.all p := by
  rw [all, any_eq, ← List.not_all_eq_any_not, Bool.not_not]

theorem hasAt_go (t p : Text) (i n : Nat) :
    hasAt.go t i p n = true ↔ ∀ k < n, t.at0 (i + k) = p.at0 k := by
  induction n with
  | zero => simp [hasAt.go]
  | succ n ih =>
    rw [hasAt.go, Bool.and_eq_true, ih, beq_iff_eq]
    constructor
    · intro ⟨hn, hk⟩ k hlt
      obtain hk' | rfl := Nat.lt_succ_iff_lt_or_eq.1 hlt
      · exact hk k hk'
      · exact hn
    · exact fun h => ⟨h n (Nat.lt_succ_self n), fun k hk => h k (Nat.lt_succ_of_lt hk)⟩

theorem hasAt_iff (t p : Text) (i : Nat) : t.hasAt i p = true ↔
    i + p.toList.length ≤ t.toList.length ∧ p.toList <+: t.toList.drop i := by
  rw [hasAt, Bool.and_eq_true, decide_eq_true_iff, hasAt_go, List.prefix_iff_getElem]
  simp only [size_eq, List.getElem_drop, List.length_drop]
  constructor
  · intro ⟨hle, hk⟩
    refine ⟨hle, by omega, fun k hlt => ?_⟩
    have h := hk k hlt
    simp only [at0_eq, List.getD_eq_getElem?_getD, List.getElem?_eq_getElem hlt,
      List.getElem?_eq_getElem (show i + k < t.toList.length by omega), Option.getD_some] at h
    exact h.symm
  · intro ⟨hle, _, hk⟩
    refine ⟨hle, fun k hlt => ?_⟩
    simp only [at0_eq, List.getD_eq_getElem?_getD, List.getElem?_eq_getElem hlt,
      List.getElem?_eq_getElem (show i + k < t.toList.length by omega), Option.getD_some]
    exact (hk k hlt).symm

theorem startsWith_iff (t p : Text) : t.startsWith p = true ↔ p.toList <+: t.toList := by
  rw [startsWith, hasAt_iff, List.drop_zero]
  exact and_iff_right_of_imp fun h => by simpa using h.length_le

theorem endsWith_iff (t p : Text) : t.endsWith p = true ↔ p.toList <:+ t.toList := by
  rw [endsWith, Bool.and_eq_true, decide_eq_true_iff, hasAt_iff]
  simp only [size_eq]
  constructor
  · intro ⟨hle, _, hp⟩
    have hl := hp.eq_of_length (by simp; omega)
    rw [hl]
    exact List.drop_suffix _ _
  · intro h
    have hle := h.length_le
    have hdrop := List.suffix_iff_eq_drop.1 h
    exact ⟨hle, by omega, hdrop ▸ List.prefix_refl _⟩

theorem dropEnd_append (t p : Text) : (t ++ p).dropEnd p = t := by
  apply ext_toList
  rw [dropEnd, if_pos ((endsWith_iff _ _).2 (by simp)), toList_dropRight, toList_append,
    List.length_append, size_eq, Nat.add_sub_cancel, List.take_left]

end Javelin.Text

/-!
# Texts as lists of characters

A text that is well-formed UTF-8 is made of characters (`isUtf8_iff`), and decoding it gives these
characters (`chars_ofChars`).
-/

namespace Javelin.Text

/-- The text of some characters. -/
def ofChars (cs : List Char) : Text := ofList (cs.flatMap String.utf8EncodeChar)

theorem toList_ofString (s : String) :
    (ofString s).toList = s.toList.flatMap String.utf8EncodeChar := by
  have h : s.toUTF8 = s.toList.utf8Encode := by
    exact String.utf8Encode_toList.symm
  rw [ofString, h]
  exact List.toList_data_toByteArray

theorem toList_ofChar (c : Char) : (ofChar c).toList = String.utf8EncodeChar c := by
  rw [ofChar, toList_ofString]
  simp

theorem utf8EncodeChar_ascii {c : Char} (h : c.toNat < 0x80) :
    String.utf8EncodeChar c = [UInt8.ofNat c.toNat] := by
  have hv : c.val.toNat ≤ 0x7f := Nat.lt_succ_iff.1 h
  simp only [String.utf8EncodeChar, if_pos hv]
  rfl

theorem toNat_ofNat {n : Nat} (h : n < 0xD800) : (Char.ofNat n).toNat = n := by
  rw [Char.ofNat, dif_pos (Or.inl h)]
  rfl

theorem utf8EncodeChar_ne_nil (c : Char) : String.utf8EncodeChar c ≠ [] := by
  intro h
  have hlen := String.length_utf8EncodeChar c
  rw [h] at hlen
  exact Nat.ne_of_lt c.utf8Size_pos hlen

/-- The bytes of a character beyond ASCII are beyond ASCII. -/
theorem utf8EncodeChar_ge {c : Char} (h : 0x80 ≤ c.toNat) :
    ∀ b ∈ String.utf8EncodeChar c, 0x80 ≤ b := by
  have hv : ¬ c.val.toNat ≤ 0x7f := Nat.not_le.2 h
  simp only [String.utf8EncodeChar, if_neg hv]
  split
  · intro b hb
    simp only [List.mem_cons, List.not_mem_nil, or_false] at hb
    rcases hb with rfl | rfl <;> (rw [UInt8.le_iff_toNat_le, UInt8.toNat_ofNat']; simp; omega)
  split
  · intro b hb
    simp only [List.mem_cons, List.not_mem_nil, or_false] at hb
    rcases hb with rfl | rfl | rfl <;> (rw [UInt8.le_iff_toNat_le, UInt8.toNat_ofNat']; simp; omega)
  · intro b hb
    simp only [List.mem_cons, List.not_mem_nil, or_false] at hb
    rcases hb with rfl | rfl | rfl | rfl <;>
      (rw [UInt8.le_iff_toNat_le, UInt8.toNat_ofNat']; simp; omega)

/-- A character beyond ASCII starts with a byte beyond ASCII. -/
theorem utf8EncodeChar_head {c : Char} (h : 0x80 ≤ c.toNat) :
    ∃ b bs, String.utf8EncodeChar c = b :: bs ∧ 0x80 ≤ b := by
  obtain ⟨b, bs, hbs⟩ := List.exists_cons_of_ne_nil (utf8EncodeChar_ne_nil c)
  exact ⟨b, bs, hbs, utf8EncodeChar_ge h b (hbs ▸ List.mem_cons_self)⟩

/-- A byte of ASCII stands only in the character it is. -/
theorem eq_of_mem_utf8EncodeChar {c : Char} {b : UInt8} (hb : b < 0x80)
    (h : b ∈ String.utf8EncodeChar c) : c.toNat < 0x80 ∧ c = Char.ofNat b.toNat := by
  have hascii : c.toNat < 0x80 := Nat.lt_of_not_le fun hge =>
    UInt8.not_lt.mpr (utf8EncodeChar_ge hge b h) hb
  rw [utf8EncodeChar_ascii hascii, List.mem_singleton] at h
  refine ⟨hascii, ?_⟩
  rw [h, UInt8.toNat_ofNat_of_lt' (show c.toNat < 256 by omega), Char.ofNat_toNat]

theorem notMem_utf8EncodeChar {c d : Char} (hd : d.toNat < 0x80) (h : c ≠ d) :
    UInt8.ofNat d.toNat ∉ String.utf8EncodeChar c := by
  intro hmem
  have hnat : (UInt8.ofNat d.toNat).toNat = d.toNat :=
    UInt8.toNat_ofNat_of_lt' (show d.toNat < 256 by omega)
  have hlt : UInt8.ofNat d.toNat < 0x80 := by
    rw [UInt8.lt_iff_toNat_lt, hnat]
    exact hd
  apply h
  rw [(eq_of_mem_utf8EncodeChar hlt hmem).2, hnat, Char.ofNat_toNat]

theorem utf8DecodeChar?_of_drop {t : Text} {i : Nat} {c : Char} {rest : List UInt8}
    (h : t.toList.drop i = String.utf8EncodeChar c ++ rest) :
    t.bytes.utf8DecodeChar? i = some c := by
  have hx : t.bytes.extract i t.bytes.size =
      (String.utf8EncodeChar c).toByteArray ++ rest.toByteArray := by
    have hd := toList_drop t i
    rw [h, ← List.toByteArray_append] at *
    apply ByteArray.ext
    rw [List.data_toByteArray, ← Array.toList_inj]
    exact hd
  rw [ByteArray.utf8DecodeChar?_eq_utf8DecodeChar?_extract, hx]
  exact ByteArray.utf8DecodeChar?_utf8EncodeChar_append

/-- Decoding reads a character that is written at an offset. -/
theorem decodeAt_of_drop {t : Text} {i : Nat} {c : Char} {rest : List UInt8}
    (h : t.toList.drop i = String.utf8EncodeChar c ++ rest) :
    t.decodeAt i = (c, c.utf8Size) := by
  have hc := utf8DecodeChar?_of_drop h
  by_cases ha : c.toNat < 0x80
  · have h1 : c.utf8Size = 1 := Char.utf8Size_eq_one_iff.2 (by
      rw [UInt32.le_iff_toNat_le]; exact Nat.lt_succ_iff.1 ha)
    rw [utf8EncodeChar_ascii ha] at h
    have hb := at0_of_drop h
    have hn : (UInt8.ofNat c.toNat).toNat = c.toNat :=
      UInt8.toNat_ofNat_of_lt' (show c.toNat < 256 by omega)
    have hlt : t.at0 i < 0x80 := by
      rw [hb, UInt8.lt_iff_toNat_lt, hn]
      exact ha
    rw [decodeAt, if_pos (lt_size_of_drop h), if_pos hlt, hb, hn, Char.ofNat_toNat, h1]
  · obtain ⟨b, bs, hbs, hle⟩ := utf8EncodeChar_head (Nat.not_lt.1 ha)
    rw [hbs] at h
    have hlt : ¬ t.at0 i < 0x80 := by
      rw [at0_of_drop h]
      exact UInt8.not_lt.2 hle
    rw [decodeAt, if_pos (lt_size_of_drop h), if_neg hlt, hc]

theorem decodeAt_ofChar (c : Char) : (ofChar c).decodeAt 0 = (c, c.utf8Size) :=
  decodeAt_of_drop (by rw [toList_ofChar, List.drop_zero, List.append_nil])

/-- A character starts at an offset, or a byte beyond ASCII that starts none. -/
theorem decodeAt_cases {t : Text} {i : Nat} (hi : i < t.toList.length) :
    (∃ c, t.decodeAt i = (c, c.utf8Size) ∧
      t.toList.drop i = String.utf8EncodeChar c ++ t.toList.drop (i + c.utf8Size)) ∨
      t.decodeAt i = (replacement, 1) ∧ 0x80 ≤ t.at0 i := by
  have hdrop := List.drop_eq_getElem_cons hi
  have hat := at0_of_drop hdrop
  unfold decodeAt
  rw [if_pos (show i < t.size from hi)]
  split
  next hascii =>
    have hn : (t.at0 i).toNat < 0x80 := UInt8.lt_iff_toNat_lt.mp hascii
    have hc : (Char.ofNat (t.at0 i).toNat).toNat = (t.at0 i).toNat := toNat_ofNat (by omega)
    have hone : (Char.ofNat (t.at0 i).toNat).utf8Size = 1 := Char.utf8Size_eq_one_iff.2 (by
      rw [UInt32.le_iff_toNat_le]
      exact Nat.lt_succ_iff.1 (show (Char.ofNat (t.at0 i).toNat).toNat < 128 by rw [hc]; exact hn))
    refine .inl ⟨_, by rw [hone], ?_⟩
    rw [utf8EncodeChar_ascii (by rw [hc]; exact hn), hc, UInt8.ofNat_toNat, hone, hat]
    exact hdrop
  next hbeyond =>
    split
    next c hc =>
      rw [ByteArray.utf8DecodeChar?_eq_utf8DecodeChar?_extract] at hc
      have hbytes := String.toByteArray_utf8EncodeChar_of_utf8DecodeChar?_eq_some hc
      refine .inl ⟨c, rfl, ?_⟩
      have hwhole : String.utf8EncodeChar c = (t.toList.drop i).take c.utf8Size := by
        have hlist := congrArg (fun b : ByteArray => b.data.toList) hbytes
        rw [List.toList_data_toByteArray] at hlist
        refine hlist.trans ?_
        show ((t.drop i).slice 0 c.utf8Size).toList = _
        rw [toList_slice, toList_drop, List.drop_zero, Nat.sub_zero]
      rw [hwhole, ← List.drop_drop, List.take_append_drop]
    next => exact .inr ⟨rfl, UInt8.not_lt.mp hbeyond⟩

/-- Every ASCII byte of a text is one of its characters. -/
theorem mem_chars {t : Text} {b : UInt8} (hb : b < 0x80) (h : b ∈ t.toList) :
    ∃ p ∈ t.chars, p.2 = Char.ofNat b.toNat := by
  have hfrom (fuel : Nat) : ∀ i, t.toList.length ≤ i + fuel → b ∈ t.toList.drop i →
      ∃ p ∈ t.charsFrom i fuel, p.2 = Char.ofNat b.toNat := by
    induction fuel with
    | zero =>
      intro i hi hmem
      rw [List.drop_of_length_le (show t.toList.length ≤ i from hi)] at hmem
      cases hmem
    | succ fuel ih =>
      intro i hi hmem
      have hlt : i < t.toList.length := by
        have hpos := List.length_pos_of_mem hmem
        rw [List.length_drop] at hpos
        omega
      rw [charsFrom, if_pos (show i < t.size from hlt)]
      rcases decodeAt_cases hlt with ⟨c, hc, hdrop⟩ | ⟨hc, hbeyond⟩
      · rw [hc]
        rw [hdrop, List.mem_append] at hmem
        rcases hmem with hmem | hmem
        · exact ⟨(i, c), List.mem_cons_self, (eq_of_mem_utf8EncodeChar hb hmem).2⟩
        · have hpos := c.utf8Size_pos
          obtain ⟨q, hq, hqb⟩ := ih _ (by omega) hmem
          exact ⟨q, List.mem_cons_of_mem _ hq, hqb⟩
      · have hdrop := List.drop_eq_getElem_cons hlt
        rw [hdrop, List.mem_cons, ← at0_of_drop hdrop] at hmem
        obtain ⟨q, hq, hqb⟩ := ih (i + 1) (by omega) (hmem.resolve_left fun hat =>
          UInt8.not_lt.mpr hbeyond (hat ▸ hb))
        rw [hc]
        exact ⟨q, List.mem_cons_of_mem _ hq, hqb⟩
  exact hfrom _ _ (by rw [← size_eq]; omega) h

/-- Characters that are written at an offset are read first, and others only if more is written. -/
theorem charsFrom_of_append {t : Text} {cs : List Char} {bs : List UInt8} : ∀ {i fuel : Nat},
    t.toList.drop i = cs.flatMap String.utf8EncodeChar ++ bs →
    (cs.flatMap String.utf8EncodeChar ++ bs).length ≤ fuel →
    ∃ rest, (t.charsFrom i fuel).map Prod.snd = cs ++ rest ∧ (rest = [] ↔ bs = []) := by
  induction cs with
  | nil =>
    intro i fuel h hf
    rw [List.flatMap_nil, List.nil_append] at h hf
    refine ⟨_, rfl, ?_⟩
    cases bs with
    | nil =>
      have hi : ¬ i < t.size := by
        have := congrArg List.length h
        simp only [List.length_drop, List.length_nil, ← size_eq] at this
        omega
      cases fuel <;> simp [charsFrom, hi]
    | cons b bs =>
      obtain ⟨fuel, rfl⟩ : ∃ n, fuel = n + 1 := ⟨fuel - 1, by simp at hf; omega⟩
      simp [charsFrom, lt_size_of_drop h]
  | cons c cs ih =>
    intro i fuel h hf
    rw [List.flatMap_cons, List.append_assoc] at h hf
    have hd := decodeAt_of_drop h
    have hpos := c.utf8Size_pos
    rw [List.length_append, String.length_utf8EncodeChar] at hf
    have hlen : i < t.size := by
      have := congrArg List.length h
      rw [List.length_drop, List.length_append, String.length_utf8EncodeChar, ← size_eq] at this
      omega
    obtain ⟨fuel, rfl⟩ : ∃ n, fuel = n + 1 := ⟨fuel - 1, by omega⟩
    have hrest : t.toList.drop (i + c.utf8Size) = cs.flatMap String.utf8EncodeChar ++ bs := by
      rw [← List.drop_drop, h, ← String.length_utf8EncodeChar c, List.drop_left]
    obtain ⟨rest, htail, hend⟩ := @ih (i + c.utf8Size) fuel hrest (by omega)
    refine ⟨rest, ?_, hend⟩
    simp only [charsFrom, hlen, if_true, hd, List.map_cons, htail, List.cons_append]

theorem chars_of_append {t : Text} {cs : List Char} {bs : List UInt8}
    (h : t.toList = (ofChars cs).toList ++ bs) :
    ∃ rest, t.chars.map Prod.snd = cs ++ rest ∧ (rest = [] ↔ bs = []) :=
  charsFrom_of_append h (Nat.le_of_eq (congrArg List.length h.symm))

/-- The characters of a text that is made of characters. -/
theorem chars_ofChars (cs : List Char) : (ofChars cs).chars.map Prod.snd = cs := by
  obtain ⟨rest, hchars, hend⟩ := chars_of_append (List.append_nil (ofChars cs).toList).symm
  rw [hchars, hend.2 rfl, List.append_nil]

theorem isUtf8_iff {t : Text} : t.isUtf8 = true ↔ ∃ cs, t = ofChars cs := by
  rw [isUtf8, ByteArray.validateUTF8_eq_true_iff]
  constructor
  · rintro ⟨cs, h⟩
    refine ⟨cs, ext_toList ?_⟩
    rw [toList, h]
    exact List.toList_data_toByteArray
  · rintro ⟨cs, rfl⟩
    refine ⟨cs, ByteArray.ext ?_⟩
    rw [List.utf8Encode, List.data_toByteArray]
    rfl

theorem units_eq (t : Text) : t.units = (t.chars.map Prod.snd).flatMap unitsOf := by
  rw [units, List.flatMap_map]

theorem toList_ofChars (cs : List Char) :
    (ofChars cs).toList = cs.flatMap String.utf8EncodeChar := rfl

theorem ofChars_cons (c : Char) (cs : List Char) :
    (ofChars (c :: cs)).toList = String.utf8EncodeChar c ++ (ofChars cs).toList := rfl

theorem ofChars_append (cs ds : List Char) :
    (ofChars (cs ++ ds)).toList = (ofChars cs).toList ++ (ofChars ds).toList :=
  List.flatMap_append

theorem ofChars_inj {cs ds : List Char} (h : ofChars cs = ofChars ds) : cs = ds := by
  rw [← chars_ofChars cs, h, chars_ofChars]

end Javelin.Text
