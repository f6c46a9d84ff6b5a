import Javelin.Proofs.Constant.Numerals
import Javelin.Proofs.Text.Characters

/-!
# What literals denote

A character literal is one character or an escape sequence between quotes. Together with the integer
literals, reading a literal gives the value that it denotes (`constant_value?`).
-/

namespace Javelin.Literal

/-! ## Character literals -/

/-- What the letters behind a backslash stand for. -/
def escapes : List (Char × Nat) :=
  [('b', 8), ('t', 9), ('n', 10), ('f', 12), ('r', 13), ('s', 32), ('"', 34), ('\'', 39),
    ('\\', 92)]

/-- The number of an octal escape, which has at most three digits and is below 256. -/
def octal? (ds : List Char) : Option Nat :=
  (written 8 ds).filter fun n => ds.length ≤ 3 ∧ n < 256

/-- The unit of a character literal from what stands between its quotes. -/
def unit? : List Char → Option Nat
  | ['\\', c] => (escapes.lookup c).or (octal? [c])
  | '\\' :: ds => octal? ds
  | [c] => if c ≠ '\'' ∧ c.toNat < 2 ^ 16 then some c.toNat else none
  | _ => none

/-- What stands between the quotes of a character literal. -/
def quoted? (raw : Text) : Option (List Char) :=
  match raw.chars.map Prod.snd with
  | '\'' :: rest =>
    if raw.isUtf8 ∧ rest.getLast? = some '\'' then some rest.dropLast else none
  | _ => none

theorem quoted?_eq {raw : Text} {cs : List Char} (h : quoted? raw = some cs) :
    raw = Text.ofChars ('\'' :: cs ++ ['\'']) := by
  unfold quoted? at h
  split at h
  next rest hr =>
    obtain ⟨⟨hutf, hlast⟩, hcs⟩ := Option.ite_none_right_eq_some.1 h
    cases hcs
    obtain ⟨all, rfl⟩ := Text.isUtf8_iff.1 hutf
    rw [Text.chars_ofChars] at hr
    rw [hr, List.cons_append, List.dropLast_append_getLast? '\'' hlast]
  next => cases h

theorem backslash_notMem {c : Char} (h : c ≠ '\\') : 92 ∉ String.utf8EncodeChar c := by
  by_cases ha : c.toNat < 0x80
  · rw [Text.utf8EncodeChar_ascii ha, List.mem_singleton]
    intro h92
    apply h
    have hn : (UInt8.ofNat c.toNat).toNat = c.toNat :=
      UInt8.toNat_ofNat_of_lt' (show c.toNat < 256 by omega)
    rw [← h92] at hn
    rw [← Char.ofNat_toNat c, ← hn]
    rfl
  · intro h92
    exact absurd (Text.utf8EncodeChar_ge (Nat.not_lt.1 ha) _ h92) (by decide)

/-- A body without escape sequences stays as it is. -/
theorem unescapeFrom_plain {t : Text} {inBlock : Bool} (n : Nat) : ∀ {i fuel : Nat} {out : Text},
    t.size - i = n → n < fuel → 92 ∉ t.toList.drop i →
    unescapeFrom t inBlock i out fuel = some (out ++ t.drop i) := by
  induction n with
  | zero =>
    intro i fuel out hn hf _
    obtain ⟨fuel, rfl⟩ : ∃ k, fuel = k + 1 := ⟨fuel - 1, by omega⟩
    rw [unescapeFrom, if_neg (by omega)]
    congr 1
    apply Text.ext_toList
    rw [Text.toList_append, Text.toList_drop, List.drop_of_length_le (by rw [← Text.size_eq]; omega),
      List.append_nil]
  | succ n ih =>
    intro i fuel out hn hf hmem
    obtain ⟨fuel, rfl⟩ : ∃ k, fuel = k + 1 := ⟨fuel - 1, by omega⟩
    have hi : i < t.toList.length := by rw [← Text.size_eq]; omega
    rw [List.drop_eq_getElem_cons hi, List.mem_cons, not_or] at hmem
    have hat : t.at0 i = t.toList[i] := Text.at0_of_drop (List.drop_eq_getElem_cons hi)
    have hne : ¬ (t.at0 i == ('\\' : Char)) = true := by
      rw [hat, beq_iff_eq]
      exact fun h => hmem.1 h.symm
    rw [unescapeFrom, if_pos (show i < t.size from hi), if_neg hne,
      ih (by omega) (by omega) hmem.2]
    congr 1
    apply Text.ext_toList
    rw [Text.toList_append, Text.toList_append, Text.toList_push, Text.toList_drop,
      Text.toList_drop, hat, List.drop_eq_getElem_cons hi, List.append_assoc]
    rfl

/-- The bytes between the quotes. -/
theorem unquoted?_eq (bs : List UInt8) (h : bs ≠ []) :
    unquoted? (Text.ofList (39 :: bs ++ [39])) 0x27 3 = some (Text.ofList bs) := by
  have hlen : 1 ≤ bs.length := List.length_pos_iff.2 h
  have hsize : (Text.ofList (39 :: bs ++ [39])).size = bs.length + 2 := by
    rw [Text.size_eq, Text.toList_ofList]
    simp
  have hfirst : (Text.ofList (39 :: bs ++ [39])).at0 0 = 39 := by
    rw [Text.at0_eq, Text.toList_ofList]
    rfl
  have hlast : (Text.ofList (39 :: bs ++ [39])).at0 (bs.length + 2 - 1) = 39 := by
    rw [Text.at0_eq, Text.toList_ofList]
    simp
  unfold unquoted?
  rw [hsize, hfirst, hlast]
  have hif : ¬ ((decide (bs.length + 2 < 3) || (39 : UInt8) != 0x27 || (39 : UInt8) != 0x27) =
      true) := by
    simp
    omega
  rw [if_neg hif]
  congr 1
  apply Text.ext_toList
  rw [Text.toList_slice, Text.toList_ofList, Text.toList_ofList]
  simp

/-- A literal whose body reads as one character denotes its unit. -/
theorem char_eq {bs : List UInt8} {c : Char} (hbs : bs ≠ []) (hc : c.toNat < 2 ^ 16)
    (h : unescape? (Text.ofList bs) false = some (Text.ofChar c)) :
    char (Text.ofList (39 :: bs ++ [39])) = .ok c.toNat := by
  have hsize : (Text.ofChar c).size = c.utf8Size := by
    rw [Text.size_eq, Text.toList_ofChar, String.length_utf8EncodeChar]
  have hpos := c.utf8Size_pos
  unfold char
  rw [unquoted?_eq bs hbs]
  simp only [h, Text.decodeAt_ofChar, hsize]
  have hzero : ¬ (c.utf8Size == 0) = true := by simpa using hpos.ne'
  rw [if_neg hzero, if_neg]
  simp
  omega

theorem ofChars_quoted (cs : List Char) : Text.ofChars ('\'' :: cs ++ ['\'']) =
    Text.ofList (39 :: cs.flatMap String.utf8EncodeChar ++ [39]) := by
  apply Text.ext_toList
  rw [Text.ofChars, Text.toList_ofList, Text.toList_ofList, List.cons_append, List.flatMap_cons,
    List.flatMap_append]
  rfl

/-- A literal of one character that is no backslash. -/
theorem char_plain {c : Char} (hne : c ≠ '\\') (hc : c.toNat < 2 ^ 16) :
    char (Text.ofChars ('\'' :: [c] ++ ['\''])) = .ok c.toNat := by
  rw [ofChars_quoted, List.flatMap_singleton]
  apply char_eq (Text.utf8EncodeChar_ne_nil c) hc
  unfold unescape?
  rw [unescapeFrom_plain _ rfl (by omega) (by simpa using backslash_notMem hne), Text.empty_append]
  refine congrArg some (Text.ext_toList ?_)
  rw [Text.toList_drop, Text.toList_ofList, Text.toList_ofChar, List.drop_zero]

/-- A body that is one escape sequence. -/
theorem unescape?_escape {bs : List UInt8} {piece : Text}
    (h : unescapeAt? (Text.ofList (92 :: bs)) false 1 = some (piece, bs.length + 1)) :
    unescape? (Text.ofList (92 :: bs)) false = some piece := by
  have hsize : (Text.ofList (92 :: bs)).size = bs.length + 1 := by
    rw [Text.size_eq, Text.toList_ofList, List.length_cons]
  have hfirst : (Text.ofList (92 :: bs)).at0 0 = 92 := by
    rw [Text.at0_eq, Text.toList_ofList]
    rfl
  unfold unescape?
  have hslash : ((92 : UInt8) == ('\\' : Char)) = true := rfl
  rw [hsize, unescapeFrom, hsize, hfirst, if_pos (Nat.succ_pos _), if_pos hslash, Nat.zero_add, h]
  simp only
  rw [unescapeFrom, hsize, if_neg (Nat.lt_irrefl _), Text.empty_append]

theorem singleton_eq {n : Nat} (h : n < 0x80) :
    Text.singleton (UInt8.ofNat n) = Text.ofChar (Char.ofNat n) := by
  have hn : (Char.ofNat n).toNat = n := Text.toNat_ofNat (by omega)
  apply Text.ext_toList
  rw [Text.toList_ofChar, Text.utf8EncodeChar_ascii (by rw [hn]; exact h), hn]
  rfl

theorem simpleEscape?_eq : ∀ p ∈ escapes, p.1.toNat < 0x80 ∧ p.2 < 0x80 ∧
    simpleEscape? (UInt8.ofNat p.1.toNat) = some (UInt8.ofNat p.2) := by
  decide

/-- A literal of an escape sequence of one letter. -/
theorem char_escape {c : Char} {n : Nat} (h : (c, n) ∈ escapes) :
    char (Text.ofChars ('\'' :: ['\\', c] ++ ['\''])) = .ok n := by
  obtain ⟨hc, hn, hescape⟩ := simpleEscape?_eq _ h
  have hchar : (Char.ofNat n).toNat = n := Text.toNat_ofNat (by omega)
  have hbytes : ['\\', c].flatMap String.utf8EncodeChar = [92, UInt8.ofNat c.toNat] := by
    rw [List.flatMap_cons, List.flatMap_singleton, Text.utf8EncodeChar_ascii hc]
    rfl
  rw [ofChars_quoted, hbytes]
  refine (char_eq (c := Char.ofNat n) (by simp) (by omega) ?_).trans (by rw [hchar])
  apply unescape?_escape
  have hget : (Text.ofList [92, UInt8.ofNat c.toNat]).get? 1 = some (UInt8.ofNat c.toNat) := rfl
  unfold unescapeAt?
  rw [hget]
  simp only [hescape]
  rw [singleton_eq hn]
  rfl

theorem toNat_le_toLower (c : Char) : c.toNat ≤ c.toLower.toNat := by
  unfold Char.toLower
  split
  next h =>
    have h2 : c.toNat ≤ 90 := UInt32.le_iff_toNat_le.1 h.2
    change c.toNat ≤ (c.toNat + 32) % 2 ^ 32
    omega
  next => exact Nat.le_refl _

theorem toNat_lt_of_digit {c : Char} (h : digit c < 16) : c.toNat < 256 := by
  have hmem : c.toLower ∈ "0123456789abcdef".toList := List.idxOf_lt_length_iff.1 h
  have hall : ∀ d ∈ "0123456789abcdef".toList, d.toNat < 256 := by decide
  exact Nat.lt_of_le_of_lt (toNat_le_toLower c) (hall _ hmem)

theorem letter_toNat {c : Char} (h : c.toNat < 256) : letter (UInt8.ofNat c.toNat) = c := by
  rw [letter, UInt8.toNat_ofNat_of_lt' h, Char.ofNat_toNat]

theorem octal_byte {b : UInt8} (hb : digit (letter b) < 8) : b < 0x80 ∧
    Token.isOctalDigit b = true ∧ digit (letter b) = b.toNat - 48 ∧ simpleEscape? b = none ∧
    (b == '\n') = false ∧ (b == 'u') = false :=
  forall_digit (p := fun b => digit (letter b) < 8 → b < 0x80 ∧
      Token.isOctalDigit b = true ∧ digit (letter b) = b.toNat - 48 ∧ simpleEscape? b = none ∧
      (b == '\n') = false ∧ (b == 'u') = false)
    (by decide) (Nat.lt_trans hb (by decide)) hb

/-- A run of bytes of a kind ends where the text ends. -/
theorem skipAtMost_eq {t : Text} {p : UInt8 → Bool} (hp : p 0 = false) (n : Nat) :
    ∀ {i : Nat} {bs : List UInt8}, t.toList.drop i = bs → (∀ b ∈ bs, p b = true) →
    Token.skipAtMost t p i n = i + min n bs.length := by
  induction n with
  | zero => intro i bs _ _; simp [Token.skipAtMost]
  | succ n ih =>
    intro i bs hbs hall
    cases bs with
    | nil =>
      have hat : t.at0 i = 0 := by
        rw [Text.at0_eq, List.getD_eq_getElem?_getD, ← List.head?_drop, hbs]
        rfl
      rw [Token.skipAtMost, hat, hp]
      simp
    | cons b bs =>
      have hb : p b = true := hall b List.mem_cons_self
      have htail : t.toList.drop (i + 1) = bs := by
        rw [← List.drop_drop, hbs]
        rfl
      rw [Token.skipAtMost, Text.at0_of_drop hbs, if_pos hb,
        ih htail fun x hx => hall x (List.mem_cons_of_mem _ hx), List.length_cons]
      omega

/-- The bytes of octal digits. -/
theorem octal_bytes {ds : List Char} (hd : ∀ d ∈ ds, digit d < 8) :
    ∃ bs : List UInt8, bs.map letter = ds ∧ (∀ b ∈ bs, digit (letter b) < 8) ∧
      ds.flatMap String.utf8EncodeChar = bs := by
  refine ⟨ds.map fun d => UInt8.ofNat d.toNat, ?_, ?_, ?_⟩
  · rw [List.map_map]
    refine (List.map_congr_left fun d hmem => ?_).trans (List.map_id ds)
    exact letter_toNat (toNat_lt_of_digit (Nat.lt_trans (hd d hmem) (by decide)))
  · intro b hb
    obtain ⟨d, hmem, rfl⟩ := List.mem_map.1 hb
    rw [letter_toNat (toNat_lt_of_digit (Nat.lt_trans (hd d hmem) (by decide)))]
    exact hd d hmem
  · rw [List.flatMap_def, List.map_congr_left (g := fun d => [UInt8.ofNat d.toNat])]
    · rw [← List.flatMap_def, ← List.map_eq_flatMap]
    · intro d hmem
      have hlt := toNat_lt_of_digit (Nat.lt_trans (hd d hmem) (by decide))
      have hbyte := (octal_byte (b := UInt8.ofNat d.toNat)
        (by rw [letter_toNat hlt]; exact hd d hmem)).1
      apply Text.utf8EncodeChar_ascii
      have hn := UInt8.lt_iff_toNat_lt.1 hbyte
      rwa [UInt8.toNat_ofNat_of_lt' hlt] at hn

theorem octal_large {b : UInt8} (hb : digit (letter b) < 8) (h : ¬ b ≤ '3') : 4 ≤ digitValue b :=
  forall_digit (p := fun b => ¬ b ≤ '3' → 4 ≤ digitValue b) (by decide)
    (Nat.lt_trans hb (by decide)) h

/-- Of three octal digits below 256 the first is at most three. -/
theorem octal_length {b : UInt8} {bs : List UInt8} (hlen : (b :: bs).length ≤ 3)
    (hlt : (b :: bs).foldl (fun n b => n * 8 + digitValue b) 0 < 256)
    (hb : digit (letter b) < 8) : (b :: bs).length ≤ if b ≤ '3' then 3 else 2 := by
  split
  · exact hlen
  next hle =>
    have hv := octal_large hb hle
    match bs, hlen with
    | [], _ => simp
    | [_], _ => simp
    | [c, d], _ =>
      simp only [List.foldl_cons, List.foldl_nil] at hlt
      omega

/-- A literal of an octal escape sequence. -/
theorem char_octal {ds : List Char} {n : Nat} (h : octal? ds = some n) :
    char (Text.ofChars ('\'' :: ('\\' :: ds) ++ ['\''])) = .ok n := by
  obtain ⟨hw, hp⟩ := Option.filter_eq_some_iff.1 h
  obtain ⟨hlen, hlt⟩ := of_decide_eq_true hp
  obtain ⟨hne, hd, hn⟩ := written_iff.1 hw
  obtain ⟨bs, rfl, hoctal, hbytes⟩ := octal_bytes hd
  have hsixteen : ∀ b ∈ bs, digit (letter b) < 16 :=
    fun b hb => Nat.lt_trans (hoctal b hb) (by decide)
  rw [ofDigits_letters 8 bs hsixteen] at hn
  subst hn
  rw [List.length_map] at hlen
  cases bs with
  | nil => exact absurd rfl hne
  | cons b bs =>
    obtain ⟨-, -, -, hsimple, hline, hu⟩ := octal_byte (hoctal b List.mem_cons_self)
    have hdigits : ∀ x ∈ b :: bs, Token.isOctalDigit x = true :=
      fun x hx => (octal_byte (hoctal x hx)).2.1
    have hrest : (Text.ofList (92 :: b :: bs)).toList.drop 1 = b :: bs := rfl
    have hend := skipAtMost_eq (t := Text.ofList (92 :: b :: bs)) (p := Token.isOctalDigit)
      (by decide)
      (if b ≤ '3' then 3 else 2) hrest hdigits
    rw [Nat.min_eq_right (octal_length hlen hlt (hoctal b List.mem_cons_self)), Nat.add_comm] at hend
    have hslice : ((Text.ofList (92 :: b :: bs)).slice 1 ((b :: bs).length + 1)).toList =
        b :: bs := by
      rw [Text.toList_slice, hrest, Nat.add_sub_cancel, List.take_length]
    have hvalue : octalValue ((Text.ofList (92 :: b :: bs)).slice 1 ((b :: bs).length + 1)) =
        (b :: bs).foldl (fun n b => n * 8 + digitValue b) 0 := by
      rw [octalValue, Text.foldl_eq, hslice]
      apply List.foldl_ext
      intro n x hx
      rw [digitValue_eq (hsixteen x hx), (octal_byte (hoctal x hx)).2.2.1]
    generalize (b :: bs).foldl (fun n b => n * 8 + digitValue b) 0 = n at hlt hvalue ⊢
    have hchar : (Char.ofNat n).toNat = n := Text.toNat_ofNat (by omega)
    have hpiece : Text.ofCodePoint n = Text.ofChar (Char.ofNat n) := by
      rw [Text.ofCodePoint, Text.charOf, if_pos (Or.inl (by omega))]
    have hbody : ('\\' :: (b :: bs).map letter).flatMap String.utf8EncodeChar = 92 :: b :: bs := by
      rw [List.flatMap_cons, hbytes]
      rfl
    rw [ofChars_quoted, hbody]
    refine (char_eq (c := Char.ofNat n) (by simp) (by omega) ?_).trans (by rw [hchar])
    apply unescape?_escape
    have hget : (Text.ofList (92 :: b :: bs)).get? 1 = some b := by
      rw [Text.get?_eq, Text.toList_ofList]
      rfl
    unfold unescapeAt?
    simp only [hget, hsimple, hline, hu, hdigits b List.mem_cons_self, hend, hvalue,
      hpiece, Bool.false_eq_true, if_false, if_true]

theorem unit?_lt {cs : List Char} {n : Nat} (h : unit? cs = some n) : n < 2 ^ 16 := by
  have hescape : ∀ p ∈ escapes, p.2 < 2 ^ 16 := by decide
  have hoctal : ∀ {ds : List Char}, octal? ds = some n → n < 2 ^ 16 := by
    intro ds hd
    have hlt := (of_decide_eq_true (Option.filter_eq_some_iff.1 hd).2).2
    omega
  unfold unit? at h
  split at h
  next c =>
    obtain he | ⟨-, ho⟩ := Option.or_eq_some_iff.1 h
    · obtain ⟨before, after, hmem, -⟩ := List.lookup_eq_some_iff.1 he
      exact hescape (c, n) (by rw [hmem]; simp)
    · exact hoctal ho
  next => exact hoctal h
  next =>
    obtain ⟨⟨-, hlt⟩, hn⟩ := Option.ite_none_right_eq_some.1 h
    cases hn
    exact hlt
  next => cases h

/-- Reading a character literal gives the unit that it denotes. -/
theorem unit?_eq {cs : List Char} {n : Nat} (h : unit? cs = some n) :
    char (Text.ofChars ('\'' :: cs ++ ['\''])) = .ok n := by
  unfold unit? at h
  split at h
  next c =>
    cases he : escapes.lookup c with
    | some m =>
      rw [he] at h
      cases h
      obtain ⟨before, after, hmem, -⟩ := List.lookup_eq_some_iff.1 he
      exact char_escape (by rw [hmem]; simp)
    | none =>
      rw [he] at h
      exact char_octal h
  next => exact char_octal h
  next hc =>
    obtain ⟨⟨-, hlt⟩, hn⟩ := Option.ite_none_right_eq_some.1 h
    cases hn
    exact char_plain hc hlt
  next => cases h

/-! ## All literals -/

/-- The type of literals of a kind. -/
def Kind.type : Kind → BasicType
  | .int => .int
  | .long => .long
  | .float => .float
  | .double => .double
  | .char => .char
  | .string | .textBlock => .string
  | .boolean => .boolean
  | .null => .null

theorem Kind.type_eq_boolean {kind : Kind} : kind.type = .boolean ↔ kind = .boolean := by
  cases kind <;> decide

theorem Kind.type_eq_long {kind : Kind} : kind.type = .long ↔ kind = .long := by
  cases kind <;> decide

/-- The value that a literal denotes. -/
def value? (kind : Kind) (raw : Text) : Option Value :=
  match kind with
  | .int | .long => (denoted kind raw).map .number
  | .char => ((quoted? raw).bind unit?).map fun n : Nat => .number n
  | .boolean =>
    if raw = "true" then some (.truth true)
    else if raw = "false" then some (.truth false)
    else none
  | _ => none

/-- Whether a literal is spelled by the rules of the language. A number may still be too large. -/
def IsSpelled (kind : Kind) (raw : Text) : Prop :=
  match kind with
  | .int | .long => (magnitude kind raw).isSome
  | _ => (value? kind raw).isSome

theorem map_ok {α β ε : Type} {e : Except ε α} {f : α → β} {b : β} (h : e.map f = .ok b) :
    ∃ a, e = .ok a ∧ f a = b := by
  cases e with
  | error x => cases h
  | ok a =>
    cases h
    exact ⟨a, rfl, rfl⟩

theorem constant_type {kind : Kind} {raw : Text} {negated : Bool} {k : Constant}
    (h : constant kind raw negated = .ok (some k)) : k.type = kind.type := by
  unfold constant at h
  cases kind with
  | float =>
    obtain ⟨bits, -, hk⟩ := map_ok h
    cases hk
    unfold Constant.ofFloatBits
    split <;> rfl
  | int | long | double | char | string | textBlock =>
    obtain ⟨v, -, hk⟩ := map_ok h
    cases hk
    rfl
  | boolean =>
    cases h
    rfl
  | null => cases h

/-- Reading a literal gives its value. -/
theorem constant_value? {kind : Kind} {raw : Text} {k : Constant} (hs : IsSpelled kind raw)
    (h : constant kind raw false = .ok (some k)) :
    ∃ v, k.value? = some v ∧ value? kind raw = some v := by
  unfold constant at h
  cases kind with
  | int =>
    obtain ⟨x, hx, hk⟩ := map_ok h
    rw [int32] at hx
    obtain ⟨v, hv, rfl⟩ := map_ok hx
    cases hk
    have hd := @integer_denoted .int raw v hs hv
    exact ⟨.number v, Constant.value?_int (Int32.toInt_ofInt.trans (denoted_wrap hd)),
      congrArg (Option.map Value.number) hd⟩
  | long =>
    obtain ⟨x, hx, hk⟩ := map_ok h
    rw [int64] at hx
    obtain ⟨v, hv, rfl⟩ := map_ok hx
    cases hk
    have hd := @integer_denoted .long raw v hs hv
    exact ⟨.number v, Constant.value?_long (Int64.toInt_ofInt.trans (denoted_wrap hd)),
      congrArg (Option.map Value.number) hd⟩
  | char =>
    obtain ⟨n, hn, hk⟩ := map_ok h
    cases hk
    obtain ⟨v, hv⟩ := Option.isSome_iff_exists.1 hs
    obtain ⟨u, hu, rfl⟩ := Option.map_eq_some_iff.1 hv
    obtain ⟨cs, hcs, hunit⟩ := Option.bind_eq_some_iff.1 hu
    have hchar := unit?_eq hunit
    rw [← quoted?_eq hcs, hn] at hchar
    cases hchar
    have hnat : n.toUInt16.toNat = n := UInt16.toNat_ofNat_of_lt (unit?_lt hunit)
    exact ⟨.number n, congrArg (fun n : Nat => some (Value.number n)) hnat, hv⟩
  | boolean =>
    cases h
    by_cases ht : raw = "true"
    · subst ht
      exact ⟨.truth true, rfl, rfl⟩
    · have hf : raw = "false" := by
        by_contra hf
        simp [IsSpelled, value?, ht, hf] at hs
      subst hf
      exact ⟨.truth false, rfl, rfl⟩
  | float | double | string | textBlock | null => cases hs

end Javelin.Literal
