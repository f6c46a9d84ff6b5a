import Javelin.ClassFile.Pool
import Javelin.Proofs.Text.Characters
import Javelin.ClassFile.Writer
import Javelin.ClassFile.Reader

/-!
# Stored texts are read back

A text is stored by its UTF-16 code units. Reading what was stored gives the text again if it is
made of characters, and otherwise the text with its stray bytes replaced (`ofStored_toStored`).
Texts that differ are stored as bytes that differ (`stored_faithfully`).
-/

namespace Javelin.Text

/-! ## UTF-16 -/

theorem toNat_not_surrogate (c : Char) : ¬ (0xD800 ≤ c.toNat ∧ c.toNat < 0xE000) := by
  have h : c.toNat.isValidChar := c.valid
  simp only [Nat.isValidChar] at h
  omega

theorem toNat_lt (c : Char) : c.toNat < 0x110000 := by
  have h : c.toNat.isValidChar := c.valid
  simp only [Nat.isValidChar] at h
  omega

theorem ofCodePoint_toNat (c : Char) : ofCodePoint c.toNat = ofChar c := by
  have h : c.toNat.isValidChar := c.valid
  rw [ofCodePoint, charOf, if_pos h, Char.ofNat_toNat]

theorem joinSurrogates?_of_not_high {u : Nat} (v : Nat) (h : ¬ (0xD800 ≤ u ∧ u < 0xE000)) :
    joinSurrogates? u v = none := by
  unfold joinSurrogates?
  rw [if_neg]
  simp only [Bool.and_eq_true, decide_eq_true_eq]
  omega

theorem joinSurrogates?_pair {n : Nat} (hl : 0x10000 ≤ n) (hu : n < 0x110000) :
    joinSurrogates? (0xD800 + (n - 0x10000) / 0x400) (0xDC00 + (n - 0x10000) % 0x400) = some n := by
  unfold joinSurrogates?
  rw [if_pos]
  · congr 1
    omega
  · simp only [Bool.and_eq_true, decide_eq_true_eq]
    omega

/-- The code units of a character read as that character, whatever follows. -/
theorem ofUnits_unitsOf (c : Char) (us : List Nat) :
    ofUnits (unitsOf c ++ us) = ofChar c ++ ofUnits us := by
  unfold unitsOf
  by_cases h : c.toNat < 0x10000
  · simp only [h, if_true]
    cases us with
    | nil =>
      have h0 : (∅ : Text).toList = [] := rfl
      apply ext_toList
      simp [ofUnits, ofCodePoint_toNat, h0]
    | cons v us =>
      simp only [List.singleton_append, ofUnits,
        joinSurrogates?_of_not_high v (toNat_not_surrogate c), ofCodePoint_toNat]
  · simp only [h, if_false, List.cons_append, List.nil_append, ofUnits,
      joinSurrogates?_pair (Nat.not_lt.1 h) (toNat_lt c), ofCodePoint_toNat]

theorem ofUnits_flatMap (cs : List Char) : ofUnits (cs.flatMap unitsOf) = ofChars cs := by
  induction cs with
  | nil => rfl
  | cons c cs ih =>
    apply ext_toList
    rw [List.flatMap_cons, ofUnits_unitsOf, ih, toList_append, toList_ofChar]
    simp [ofChars]

theorem unitsOf_lt {c : Char} {u : Nat} (h : u ∈ unitsOf c) : u < 0x10000 := by
  have hc := toNat_lt c
  simp only [unitsOf] at h
  split at h
  · simp only [List.mem_singleton] at h
    omega
  · simp only [List.mem_cons, List.not_mem_nil, or_false] at h
    omega

/-! ## Stored code units -/

section

variable {t : Text} {i : Nat} {b c d : UInt8} {rest : List UInt8}

theorem storedUnitsFrom_one (h : t.toList.drop i = b :: rest) (hb : b.toNat < 0xC0) :
    t.storedUnitsFrom i = b.toNat :: t.storedUnitsFrom (i + 1) := by
  have hi := lt_size_of_drop h
  rw [storedUnitsFrom, dif_pos hi]
  simp only [get_of_drop h hi]
  rw [dif_neg (by omega), dif_neg (by omega)]

theorem storedUnitsFrom_two (h : t.toList.drop i = b :: c :: rest) (hl : 0xC0 ≤ b.toNat)
    (hu : b.toNat < 0xE0) :
    t.storedUnitsFrom i = (b.toNat % 32 * 64 + c.toNat % 64) :: t.storedUnitsFrom (i + 2) := by
  have hi := lt_size_of_drop h
  have hc := lt_size_of_drop (drop_succ h)
  rw [storedUnitsFrom, dif_pos hi]
  simp only [get_of_drop h hi, get_of_drop (drop_succ h) hc]
  rw [dif_pos ⟨hl, hu, hc⟩]

theorem storedUnitsFrom_three (h : t.toList.drop i = b :: c :: d :: rest) (hl : 0xE0 ≤ b.toNat)
    (hu : b.toNat < 0xF0) :
    t.storedUnitsFrom i = (b.toNat % 16 * 4096 + c.toNat % 64 * 64 + d.toNat % 64) ::
      t.storedUnitsFrom (i + 3) := by
  have hi := lt_size_of_drop h
  have hc := lt_size_of_drop (drop_succ h)
  have hd := lt_size_of_drop (drop_succ (drop_succ h))
  rw [storedUnitsFrom, dif_pos hi]
  simp only [get_of_drop h hi, get_of_drop (drop_succ h) hc,
    get_of_drop (drop_succ (drop_succ h)) hd]
  rw [dif_neg (by omega), dif_pos ⟨hl, hu, hd⟩]

theorem storedUnitsFrom_nil (h : t.toList.drop i = []) : t.storedUnitsFrom i = [] := by
  have hi : ¬ i < t.size := Nat.not_lt.2 (List.drop_eq_nil_iff.1 h)
  rw [storedUnitsFrom, dif_neg hi]

end

theorem toNat_toUInt8 {n : Nat} (h : n < 256) : n.toUInt8.toNat = n := UInt8.toNat_ofNat_of_lt' h

/-- A stored code unit is read back. -/
theorem storedUnitsFrom_storedUnit {t : Text} {i u : Nat} {rest : List UInt8} (hu : u < 0x10000)
    (h : t.toList.drop i = storedUnit u ++ rest) :
    t.storedUnitsFrom i = u :: t.storedUnitsFrom (i + (storedUnit u).length) := by
  unfold storedUnit at h ⊢
  by_cases h1 : u != 0 && u < 0x80
  · rw [if_pos h1] at h ⊢
    simp only [Bool.and_eq_true, decide_eq_true_eq] at h1
    have hb := toNat_toUInt8 (show u < 256 by omega)
    have hread := storedUnitsFrom_one h (by omega)
    rwa [hb] at hread
  rw [if_neg h1] at h ⊢
  by_cases h2 : u < 0x800
  · rw [if_pos h2] at h ⊢
    have hb := toNat_toUInt8 (show 0xC0 + u / 64 < 256 by omega)
    have hc := toNat_toUInt8 (show 0x80 + u % 64 < 256 by omega)
    have hread := storedUnitsFrom_two h (by omega) (by omega)
    rw [hb, hc] at hread
    rw [hread]
    congr 1
    omega
  · rw [if_neg h2] at h ⊢
    have hb := toNat_toUInt8 (show 0xE0 + u / 4096 < 256 by omega)
    have hc := toNat_toUInt8 (show 0x80 + u / 64 % 64 < 256 by omega)
    have hd := toNat_toUInt8 (show 0x80 + u % 64 < 256 by omega)
    have hread := storedUnitsFrom_three h (by omega) (by omega)
    rw [hb, hc, hd] at hread
    rw [hread]
    congr 1
    omega

theorem storedUnitsFrom_flatMap {t : Text} {us : List Nat} (hu : ∀ u ∈ us, u < 0x10000) :
    ∀ {i}, t.toList.drop i = us.flatMap storedUnit → t.storedUnitsFrom i = us := by
  induction us with
  | nil => exact storedUnitsFrom_nil
  | cons u us ih =>
    intro i h
    rw [List.flatMap_cons] at h
    have hrest : t.toList.drop (i + (storedUnit u).length) = us.flatMap storedUnit := by
      rw [← List.drop_drop, h, List.drop_left]
    rw [storedUnitsFrom_storedUnit (hu u List.mem_cons_self) h,
      ih (fun v hv => hu v (List.mem_cons_of_mem u hv)) hrest]

/-! ## Plain texts

Texts of ASCII bytes are read and written as they are. -/

theorem flatMap_eq_map {α β : Type} {f : α → List β} {g : α → β} {as : List α}
    (h : ∀ a ∈ as, f a = [g a]) : as.flatMap f = as.map g := by
  induction as with
  | nil => rfl
  | cons a as ih =>
    rw [List.flatMap_cons, h a List.mem_cons_self, ih fun b hb => h b (List.mem_cons_of_mem a hb)]
    rfl

/-- The characters of ASCII bytes. -/
def asciiChars (bs : List UInt8) : List Char := bs.map fun b => Char.ofNat b.toNat

theorem toNat_ofNat_ascii {b : UInt8} (h : b < 0x80) : (Char.ofNat b.toNat).toNat = b.toNat := by
  have hb : b.toNat < 0x80 := UInt8.lt_iff_toNat_lt.1 h
  rw [Char.ofNat, dif_pos (Or.inl (by omega))]
  rfl

theorem ofChars_asciiChars {bs : List UInt8} (h : ∀ b ∈ bs, b < 0x80) :
    ofChars (asciiChars bs) = ofList bs := by
  apply ext_toList
  rw [ofChars, toList_ofList, toList_ofList, asciiChars, List.flatMap_map]
  have hb : ∀ b ∈ bs, String.utf8EncodeChar (Char.ofNat b.toNat) = [b] := by
    intro b hb
    have hlt : b.toNat < 0x80 := UInt8.lt_iff_toNat_lt.1 (h b hb)
    rw [utf8EncodeChar_ascii (by rwa [toNat_ofNat_ascii (h b hb)]), toNat_ofNat_ascii (h b hb),
      UInt8.ofNat_toNat]
  rw [flatMap_eq_map hb, List.map_id']

theorem flatMap_unitsOf_ascii {bs : List UInt8} (h : ∀ b ∈ bs, b < 0x80) :
    (asciiChars bs).flatMap unitsOf = bs.map UInt8.toNat := by
  rw [asciiChars, List.flatMap_map]
  have hb : ∀ b ∈ bs, unitsOf (Char.ofNat b.toNat) = [b.toNat] := by
    intro b hb
    have hlt : b.toNat < 0x80 := UInt8.lt_iff_toNat_lt.1 (h b hb)
    simp only [unitsOf, toNat_ofNat_ascii (h b hb)]
    rw [if_pos (by omega)]
  exact flatMap_eq_map hb

theorem storedUnitsFrom_ascii {t : Text} {bs : List UInt8} (h : ∀ b ∈ bs, b < 0x80) :
    ∀ {i}, t.toList.drop i = bs → t.storedUnitsFrom i = bs.map UInt8.toNat := by
  induction bs with
  | nil => exact storedUnitsFrom_nil
  | cons b bs ih =>
    intro i hi
    have hb : b.toNat < 0x80 := UInt8.lt_iff_toNat_lt.1 (h b List.mem_cons_self)
    rw [storedUnitsFrom_one hi (by omega), List.map_cons,
      ih (fun c hc => h c (List.mem_cons_of_mem b hc)) (drop_succ hi)]

/-- Reading a text as it is makes no difference. -/
theorem ofStored_eq (t : Text) : t.ofStored = ofUnits (t.storedUnitsFrom 0) := by
  unfold ofStored
  split
  next h =>
    rw [all_eq, List.all_eq_true] at h
    have hb : ∀ b ∈ t.toList, b < 0x80 := fun b hb => of_decide_eq_true (h b hb)
    rw [storedUnitsFrom_ascii hb rfl, ← flatMap_unitsOf_ascii hb, ofUnits_flatMap,
      ofChars_asciiChars hb]
    exact ext_toList rfl
  next => rfl

/-- Writing a text as it is makes no difference. -/
theorem toStored_eq (t : Text) : t.toStored = ofList (t.units.flatMap storedUnit) := by
  unfold toStored
  split
  next h =>
    rw [all_eq, List.all_eq_true] at h
    have hb : ∀ b ∈ t.toList, b ≠ 0 ∧ b < 0x80 := fun b hb => by simpa using h b hb
    have ht : t = ofChars (asciiChars t.toList) :=
      ext_toList (by rw [ofChars_asciiChars fun b h => (hb b h).2]; rfl)
    have hc : t.chars.map Prod.snd = asciiChars t.toList :=
      (congrArg (fun u => u.chars.map Prod.snd) ht).trans (chars_ofChars _)
    have hu : t.units = t.toList.map UInt8.toNat := by
      rw [units_eq, hc, flatMap_unitsOf_ascii fun b h => (hb b h).2]
    apply ext_toList
    rw [hu, toList_ofList, List.flatMap_map]
    have hs : ∀ b ∈ t.toList, storedUnit b.toNat = [b] := by
      intro b h
      have hlt : b.toNat < 0x80 := UInt8.lt_iff_toNat_lt.1 (hb b h).2
      have hne : b.toNat ≠ 0 := fun h0 => (hb b h).1 (UInt8.toNat_inj.1 h0)
      rw [storedUnit, if_pos (by simp [hne, hlt]), Nat.toUInt8_eq, UInt8.ofNat_toNat]
    rw [flatMap_eq_map hs, List.map_id']
  next => rfl

/-- The text with the replacement character in place of each byte that is part of no character. -/
def repaired (t : Text) : Text := ofChars (t.chars.map Prod.snd)

/-- A stored text is read back, except for bytes that are part of no character. -/
theorem ofStored_toStored (t : Text) : t.toStored.ofStored = t.repaired := by
  have hu : ∀ u ∈ t.units, u < 0x10000 := by
    intro u hu
    rw [units_eq, List.mem_flatMap] at hu
    obtain ⟨c, -, hc⟩ := hu
    exact unitsOf_lt hc
  rw [ofStored_eq, storedUnitsFrom_flatMap hu (by rw [toStored_eq]; rfl), units_eq, ofUnits_flatMap]
  rfl

theorem repaired_eq_iff {t : Text} : t.repaired = t ↔ t.isUtf8 = true := by
  rw [isUtf8_iff]
  constructor
  · exact fun h => ⟨_, h.symm⟩
  · rintro ⟨cs, rfl⟩
    rw [repaired, chars_ofChars]

end Javelin.Text

/-!
## Reading what was written

`Reads m bs a` says that the reader `m` takes the bytes `bs` for `a`, wherever they stand in a file.
It is closed under sequencing (`Reads.bind`), so what is shown of numbers carries over to entries
(`reads_entry`) and rows of items (`reads_items`, `reads_itemsFrom`).
-/

namespace Javelin

/-! ## Bytes of numbers -/

/-- The bytes of a number, the high one first. -/
def bytesOfU2 (v : UInt16) : List UInt8 := [(v >>> 8).toUInt8, v.toUInt8]

def bytesOfU4 (v : UInt32) : List UInt8 :=
  bytesOfU2 (v >>> 16).toUInt16 ++ bytesOfU2 v.toUInt16

def bytesOfU8 (v : UInt64) : List UInt8 :=
  bytesOfU4 (v >>> 32).toUInt32 ++ bytesOfU4 v.toUInt32

namespace Text

@[simp] theorem toList_pushU2 (t : Text) (v : UInt16) :
    (t.pushU2 v).toList = t.toList ++ bytesOfU2 v := by
  simp [pushU2, bytesOfU2]

@[simp] theorem toList_pushU4 (t : Text) (v : UInt32) :
    (t.pushU4 v).toList = t.toList ++ bytesOfU4 v := by
  simp [pushU4, bytesOfU4]

@[simp] theorem toList_pushU8 (t : Text) (v : UInt64) :
    (t.pushU8 v).toList = t.toList ++ bytesOfU8 v := by
  simp [pushU8, bytesOfU8]

end Text

/-- Two parts of a number of which the low one has `k` bits. -/
theorem or_shift (k a b : Nat) (h : b < 2 ^ k) : a <<< k ||| b = a * 2 ^ k + b := by
  rw [Nat.shiftLeft_eq, Nat.mul_comm, Nat.two_pow_add_eq_or_of_lt h]

theorem joinU2 (v : UInt16) :
    (v >>> 8).toUInt8.toUInt16 <<< 8 ||| v.toUInt8.toUInt16 = v := by
  apply UInt16.toNat_inj.1
  have hv := v.toNat_lt
  simp
  rw [Nat.mod_eq_of_lt, or_shift]
  all_goals simp [Nat.shiftRight_eq_div_pow, Nat.shiftLeft_eq]
  all_goals omega

/-- The number that the bytes of its halves make. -/
theorem joinU4 (v : UInt32) :
    (v >>> 16).toUInt16.toUInt32 <<< 16 ||| v.toUInt16.toUInt32 = v := by
  apply UInt32.toNat_inj.1
  have hv := v.toNat_lt
  simp
  rw [Nat.mod_eq_of_lt, or_shift]
  all_goals simp [Nat.shiftRight_eq_div_pow, Nat.shiftLeft_eq]
  all_goals omega

theorem joinU8 (v : UInt64) :
    (v >>> 32).toUInt32.toUInt64 <<< 32 ||| v.toUInt32.toUInt64 = v := by
  apply UInt64.toNat_inj.1
  have hv := v.toNat_lt
  simp
  rw [Nat.mod_eq_of_lt, or_shift]
  all_goals simp [Nat.shiftRight_eq_div_pow, Nat.shiftLeft_eq]
  all_goals omega

theorem joinBytes (a b c d : UInt8) :
    a.toUInt32 <<< 24 ||| b.toUInt32 <<< 16 ||| c.toUInt32 <<< 8 ||| d.toUInt32 =
      (a.toUInt16 <<< 8 ||| b.toUInt16).toUInt32 <<< 16 |||
        (c.toUInt16 <<< 8 ||| d.toUInt16).toUInt32 := by
  have ha := a.toNat_lt
  have hb := b.toNat_lt
  have hc := c.toNat_lt
  have hd := d.toNat_lt
  have hab : a.toNat <<< 8 ||| b.toNat < 2 ^ 16 :=
    Nat.or_lt_two_pow (by rw [Nat.shiftLeft_eq]; omega) (by omega)
  apply UInt32.toNat_inj.1
  simp only [UInt32.toNat_or, UInt32.toNat_shiftLeft, UInt8.toNat_toUInt32, UInt16.toNat_toUInt32,
    UInt16.toNat_or, UInt16.toNat_shiftLeft, UInt8.toNat_toUInt16]
  simp only [UInt32.reduceToNat, UInt16.reduceToNat, Nat.reduceMod]
  rw [Nat.mod_eq_of_lt (show a.toNat <<< 8 < 2 ^ 16 by rw [Nat.shiftLeft_eq]; omega),
    Nat.mod_eq_of_lt (show c.toNat <<< 8 < 2 ^ 16 by rw [Nat.shiftLeft_eq]; omega),
    Nat.mod_eq_of_lt (show a.toNat <<< 24 < 2 ^ 32 by rw [Nat.shiftLeft_eq]; omega),
    Nat.mod_eq_of_lt (show b.toNat <<< 16 < 2 ^ 32 by rw [Nat.shiftLeft_eq]; omega),
    Nat.mod_eq_of_lt (show c.toNat <<< 8 < 2 ^ 32 by rw [Nat.shiftLeft_eq]; omega),
    Nat.mod_eq_of_lt
      (show (a.toNat <<< 8 ||| b.toNat) <<< 16 < 2 ^ 32 by rw [Nat.shiftLeft_eq]; omega),
    Nat.shiftLeft_or_distrib, ← Nat.shiftLeft_add, ← Nat.or_assoc]

/-! ## Readers -/

namespace ClassFile

variable {α β : Type}

/-- Reading gives `a` from the bytes `bs`, wherever they stand in a file, and stops behind them. -/
def Reads (m : FileReader α) (bs : List UInt8) (a : α) : Prop :=
  ∀ data pos rest, data.toList.drop pos = bs ++ rest →
    m.run ⟨data, pos, none⟩ = .ok (a, ⟨data, pos + bs.length, none⟩)

theorem reads_pure (a : α) : Reads (pure a) [] a := fun _ _ _ _ => rfl

theorem Reads.bind {m : FileReader α} {f : α → FileReader β} {bs bs' : List UInt8} {a : α} {b : β}
    (hm : Reads m bs a) (hf : Reads (f a) bs' b) : Reads (m >>= f) (bs ++ bs') b := by
  intro data pos rest h
  rw [List.append_assoc] at h
  have hrest : data.toList.drop (pos + bs.length) = bs' ++ rest := by
    rw [← List.drop_drop, h, List.drop_left]
  rw [StateT.run_bind, hm data pos _ h, List.length_append, ← Nat.add_assoc]
  exact hf data _ rest hrest

theorem Reads.bindEnd {m : FileReader α} {f : α → FileReader β} {bs : List UInt8} {a : α} {b : β}
    (hm : Reads m bs a) (hf : Reads (f a) [] b) : Reads (m >>= f) bs b := by
  have h := hm.bind hf
  rwa [List.append_nil] at h

theorem Reads.bindPure {m : FileReader α} {f : α → β} {bs : List UInt8} {a : α}
    (hm : Reads m bs a) : Reads (m >>= fun a => pure (f a)) bs (f a) :=
  hm.bindEnd (reads_pure (f a))

theorem reads_checkEnd (fault : Ended → ReadFault) : Reads (checkEnd fault) [] () :=
  fun _ _ _ _ => rfl

theorem reads_take {n : Nat} {bs : List UInt8} (hn : bs.length = n) :
    Reads (take n) bs (Text.ofList bs) := by
  intro data pos rest h
  have hlen : n + rest.length = data.size - pos := by
    have := congrArg List.length h
    simp only [List.length_drop, List.length_append, ← Text.size_eq] at this
    omega
  have hslice : data.slice pos (pos + n) = Text.ofList bs := by
    apply Text.ext_toList
    rw [Text.toList_slice, h, Nat.add_sub_cancel_left, ← hn, List.take_left]
    rfl
  have hle : n ≤ data.size - pos := by omega
  change (if n ≤ data.size - pos then _ else _ : FileReader Text).run _ = _
  rw [if_pos hle, hn]
  exact congrArg (fun t => Except.ok (t, _)) hslice

theorem reads_takeText {n : Nat} {t : Text} (hn : t.size = n) : Reads (take n) t.toList t :=
  reads_take hn

theorem reads_u1 (b : UInt8) : Reads u1 [b] b := (reads_take rfl).bindPure

theorem reads_u2 (v : UInt16) : Reads u2 (bytesOfU2 v) v := by
  have htake : Reads (take 2) (bytesOfU2 v) _ := reads_take rfl
  have hv : (((Text.ofList (bytesOfU2 v)).at0 0).toUInt16 <<< 8 |||
      ((Text.ofList (bytesOfU2 v)).at0 1).toUInt16) = v := joinU2 v
  have h : Reads u2 _ _ := htake.bindPure
  rwa [hv] at h

theorem reads_u4 (v : UInt32) : Reads u4 (bytesOfU4 v) v := by
  have htake : Reads (take 4) (bytesOfU4 v) _ := reads_take rfl
  have hv : (((Text.ofList (bytesOfU4 v)).at0 0).toUInt32 <<< 24 |||
      ((Text.ofList (bytesOfU4 v)).at0 1).toUInt32 <<< 16 |||
      ((Text.ofList (bytesOfU4 v)).at0 2).toUInt32 <<< 8 |||
      ((Text.ofList (bytesOfU4 v)).at0 3).toUInt32) = v := by
    refine (joinBytes _ _ _ _).trans ?_
    have hhi := joinU2 (v >>> 16).toUInt16
    have hlo := joinU2 v.toUInt16
    have h := joinU4 v
    rw [← hhi, ← hlo] at h
    exact h
  have h : Reads u4 _ _ := htake.bindPure
  rwa [hv] at h

/-! ## Rows of items -/

theorem reads_items {item : FileReader α} {encode : α → List UInt8} :
    ∀ {as : List α}, (∀ a ∈ as, Reads item (encode a) a) →
      Reads (items item as.length) (as.flatMap encode) as
  | [], _ => reads_pure []
  | a :: _, h =>
    (h a List.mem_cons_self).bind
      (reads_items fun b hb => h b (List.mem_cons_of_mem a hb)).bindPure

theorem reads_itemsFrom {item : Nat → FileReader α} {encode : α → List UInt8} :
    ∀ {as : List α} (i : Nat), (∀ a ∈ as, ∀ i, Reads (item i) (encode a) a) →
      Reads (itemsFrom item i as.length) (as.flatMap encode) as
  | [], _, _ => reads_pure []
  | a :: _, i, h =>
    (h a List.mem_cons_self i).bind
      (reads_itemsFrom (i + 1) fun b hb => h b (List.mem_cons_of_mem a hb)).bindPure

/-! ## Entries -/

/-- The bytes of an entry behind its tag. -/
def Entry.payload : Entry → List UInt8
  | .utf8 t => bytesOfU2 t.toStored.size.toUInt16 ++ t.toStored.toList
  | .integer v => bytesOfU4 v.toUInt32
  | .float b => bytesOfU4 b
  | .long v => bytesOfU8 v.toUInt64
  | .double b => bytesOfU8 b
  | .cls i | .string i | .methodType i | .module i | .package i => bytesOfU2 i
  | .ref _ i j | .nameAndType i j | .dynamic _ i j => bytesOfU2 i ++ bytesOfU2 j
  | .methodHandle k i => k :: bytesOfU2 i

@[simp] theorem Entry.toList_append (out : Text) (e : Entry) :
    (e.append out).toList = out.toList ++ e.payload := by
  cases e <;> simp [Entry.append, Entry.payload]

/-- Texts are made of characters and have a length of 16 bits. -/
def Entry.IsSound : Entry → Prop
  | .utf8 t => t.isUtf8 = true ∧ t.toStored.size < 65536
  | _ => True

/-- How the reading of each entry ends. -/
theorem reads_done {e e' : Entry} (h : e' = e) (fault : Ended → ReadFault) :
    Reads (do let e ← pure e'; checkEnd fault; pure e) [] e := h ▸ fun _ _ _ _ => rfl

theorem reads_entry {e : Entry} (h : e.IsSound) (i : Nat) :
    Reads (entry i) (e.tag :: e.payload) e := by
  refine (reads_u1 e.tag).bind ?_
  cases e with
  | utf8 t =>
    have hsize : t.toStored.size.toUInt16.toNat = t.toStored.size :=
      Nat.mod_eq_of_lt h.2
    have htext : t.toStored.ofStored = t := t.ofStored_toStored.trans (t.repaired_eq_iff.2 h.1)
    exact (reads_u2 _).bind ((reads_takeText hsize.symm).bindEnd (reads_done (congrArg _ htext) _))
  | integer v => exact (reads_u4 v.toUInt32).bindEnd (reads_done rfl _)
  | float b => exact (reads_u4 b).bindEnd (reads_done rfl _)
  | long v =>
    have hv := congrArg (Entry.long ·.toInt64) (joinU8 v.toUInt64)
    exact (reads_u4 _).bind ((reads_u4 _).bindEnd (reads_done hv _))
  | double b =>
    exact (reads_u4 _).bind ((reads_u4 _).bindEnd (reads_done (congrArg _ (joinU8 b)) _))
  | cls j => exact (reads_u2 j).bindEnd (reads_done rfl _)
  | string j => exact (reads_u2 j).bindEnd (reads_done rfl _)
  | methodType j => exact (reads_u2 j).bindEnd (reads_done rfl _)
  | module j => exact (reads_u2 j).bindEnd (reads_done rfl _)
  | package j => exact (reads_u2 j).bindEnd (reads_done rfl _)
  | nameAndType j k => exact (reads_u2 j).bind ((reads_u2 k).bindEnd (reads_done rfl _))
  | methodHandle j k => exact (reads_u1 j).bind ((reads_u2 k).bindEnd (reads_done rfl _))
  | dynamic b j k =>
    cases b
    · exact (reads_u2 j).bind ((reads_u2 k).bindEnd (reads_done rfl _))
    · exact (reads_u2 j).bind ((reads_u2 k).bindEnd (reads_done rfl _))
  | ref k j l =>
    cases k
    · exact (reads_u2 j).bind ((reads_u2 l).bindEnd (reads_done rfl _))
    · exact (reads_u2 j).bind ((reads_u2 l).bindEnd (reads_done rfl _))
    · exact (reads_u2 j).bind ((reads_u2 l).bindEnd (reads_done rfl _))

end ClassFile

end Javelin

/-!
## How texts are stored

A class file stores a text character by character: as in UTF-8, except that zero takes two bytes and
that a character outside the basic plane takes three bytes for each half of its surrogate pair
(`toList_toStored`). Hence no stored byte is zero or starts a sequence of four bytes, the text is
read back, and texts that differ are stored as bytes that differ (`stored_faithfully`).
-/

namespace Javelin.Text

/-- The three bytes of a code unit. -/
def threeBytes (u : Nat) : List UInt8 :=
  [(0xE0 + u / 4096).toUInt8, (0x80 + u / 64 % 64).toUInt8, (0x80 + u % 64).toUInt8]

/-- The bytes that store a character. -/
def storedChar (c : Char) : List UInt8 :=
  if c.toNat = 0 then [0xC0, 0x80]
  else if c.toNat < 0x10000 then String.utf8EncodeChar c
  else
    threeBytes (0xD800 + (c.toNat - 0x10000) / 0x400) ++
      threeBytes (0xDC00 + (c.toNat - 0x10000) % 0x400)

/-- The code unit of a basic character is stored as UTF-8 writes the character. -/
theorem storedUnit_basic {c : Char} (hzero : c.toNat ≠ 0) (hbasic : c.toNat < 0x10000) :
    storedUnit c.toNat = String.utf8EncodeChar c := by
  have hval : c.val.toNat = c.toNat := rfl
  unfold storedUnit String.utf8EncodeChar
  simp only [hval]
  by_cases hone : c.toNat < 0x80
  · have hle : c.toNat ≤ 0x7f := by omega
    rw [if_pos (by simp [hzero, hone]), if_pos hle]
  have hgt : ¬ c.toNat ≤ 0x7f := by omega
  rw [if_neg (by simp [hone]), if_neg hgt]
  by_cases htwo : c.toNat < 0x800
  · have hle : c.toNat ≤ 0x7ff := by omega
    have hlead : c.toNat / 64 % 32 + 0xC0 = 0xC0 + c.toNat / 64 := by omega
    rw [if_pos htwo, if_pos hle, hlead, Nat.add_comm (c.toNat % 64)]
  · have hgt : ¬ c.toNat ≤ 0x7ff := by omega
    have hle : c.toNat ≤ 0xffff := by omega
    have hlead : c.toNat / 4096 % 16 + 0xE0 = 0xE0 + c.toNat / 4096 := by omega
    rw [if_neg htwo, if_neg hgt, if_pos hle, hlead, Nat.add_comm (c.toNat / 64 % 64),
      Nat.add_comm (c.toNat % 64)]

theorem storedUnit_large {u : Nat} (h : 0x800 ≤ u) : storedUnit u = threeBytes u := by
  have hone : ¬ u < 0x80 := by omega
  unfold storedUnit threeBytes
  rw [if_neg (by simp [hone]), if_neg (by omega)]

/-- The code units of a character, stored one after the other. -/
theorem storedUnits_char (c : Char) : (unitsOf c).flatMap storedUnit = storedChar c := by
  unfold unitsOf storedChar
  by_cases hzero : c.toNat = 0
  · simp only [hzero]
    rfl
  by_cases hbasic : c.toNat < 0x10000
  · simp only [hbasic, if_true, if_neg hzero, List.flatMap_singleton]
    exact storedUnit_basic hzero hbasic
  · simp only [hbasic, if_false, if_neg hzero, List.flatMap_cons, List.flatMap_nil,
      List.append_nil]
    rw [storedUnit_large (by omega), storedUnit_large (by omega)]

theorem toList_toStored (t : Text) :
    t.toStored.toList = (t.chars.map Prod.snd).flatMap storedChar := by
  rw [toStored_eq, toList_ofList, units_eq, List.flatMap_assoc]
  simp only [storedUnits_char]

/-! ## Stored bytes -/

theorem byte_between {n : Nat} (hpos : 0 < n) (hlt : n < 0xF0) :
    n.toUInt8 ≠ 0 ∧ n.toUInt8 < 0xF0 := by
  have hn : n.toUInt8.toNat = n := toNat_toUInt8 (by omega)
  constructor
  · intro hzero
    rw [hzero] at hn
    exact Nat.ne_of_lt hpos hn
  · rw [UInt8.lt_iff_toNat_lt, hn]
    exact hlt

/-- No byte of a code unit is zero or starts a sequence of four bytes. -/
theorem storedUnit_between {u : Nat} (hu : u < 0x10000) :
    ∀ b ∈ storedUnit u, b ≠ 0 ∧ b < 0xF0 := by
  unfold storedUnit
  intro b hb
  split at hb
  next hone =>
    obtain rfl := List.mem_singleton.mp hb
    have hbounds : u ≠ 0 ∧ u < 0x80 := by simpa using hone
    exact byte_between (by omega) (by omega)
  split at hb
  next htwo =>
    simp only [List.mem_cons, List.not_mem_nil, or_false] at hb
    rcases hb with rfl | rfl
    all_goals exact byte_between (by omega) (by omega)
  next =>
    simp only [List.mem_cons, List.not_mem_nil, or_false] at hb
    rcases hb with rfl | rfl | rfl
    all_goals exact byte_between (by omega) (by omega)

theorem toStored_between (t : Text) : ∀ b ∈ t.toStored.toList, b ≠ 0 ∧ b < 0xF0 := by
  intro b hb
  rw [toStored_eq, toList_ofList, List.mem_flatMap] at hb
  obtain ⟨u, hu, hb⟩ := hb
  rw [units_eq, List.mem_flatMap] at hu
  obtain ⟨c, -, hc⟩ := hu
  exact storedUnit_between (unitsOf_lt hc) b hb

/-- A text that is made of characters is read back from the bytes that store it, and these bytes are
those of its characters. None of them is zero or starts a sequence of four bytes, and every other
text is stored as other bytes. -/
theorem stored_faithfully {t : Text} (ht : t.isUtf8 = true) :
    t.toStored.ofStored = t ∧
      t.toStored.toList = (t.chars.map Prod.snd).flatMap storedChar ∧
      (∀ b ∈ t.toStored.toList, b ≠ 0 ∧ b < 0xF0) ∧
      ∀ u : Text, u.isUtf8 = true → u ≠ t → u.toStored ≠ t.toStored := by
  have hback : ∀ u : Text, u.isUtf8 = true → u.toStored.ofStored = u := by
    intro u hu
    rw [ofStored_toStored]
    exact repaired_eq_iff.mpr hu
  refine ⟨hback t ht, toList_toStored t, toStored_between t, ?_⟩
  intro u hu hne hsame
  apply hne
  rw [← hback u hu, hsame, hback t ht]

/-- A zero, a character of two bytes and one outside the basic plane. -/
def mixedText : Text := ofChars ['\x00', 'é', '😀']

theorem stored_faithfully_mixed : mixedText.isUtf8 = true ∧
    mixedText.toStored.toList = [0xC0, 0x80, 0xC3, 0xA9, 0xED, 0xA0, 0xBD, 0xED, 0xB8, 0x80] ∧
    mixedText.toStored.ofStored = mixedText := by
  have hvalid : mixedText.isUtf8 = true := isUtf8_iff.mpr ⟨_, rfl⟩
  obtain ⟨hback, hbytes, -, -⟩ := stored_faithfully hvalid
  refine ⟨hvalid, ?_, hback⟩
  rw [hbytes, mixedText, chars_ofChars]
  decide

end Javelin.Text
