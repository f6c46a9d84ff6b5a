import Javelin.Proofs.ClassFile.Reading
import Javelin.Proofs.Constant.Numerals
import Javelin.Proofs.Text.Cutting
import Javelin.Proofs.Token.EscapeSequences
import Javelin.Proofs.Token.Lossless

/-!
# Unicode escapes denote code units

A source that is made of characters falls into characters that stay and escapes in exactly one way
(`Divided.unique`, `exists_divided`). The translation takes the escapes for the code units that they
denote and leaves the rest as it is. A text cannot hold half of a surrogate pair, so halves without
their other half come out as the replacement character (`escapes_translated`).

1. The spelling of escapes, and sources cut into pieces.
2. What the pieces become, and where it comes from.
3. Bytes and characters (`escapeAt?_isSome_iff`).
4. The loop (`translateFrom_divided`).
5. Code units, and the whole translation.
-/

namespace Javelin.Source

open Text
open Token (drop_of_at0)

/-! ## Pieces of a source -/

/-- The hexadecimal digits with their values. -/
def hexDigits : List (Char × Nat) :=
  ['0', '1', '2', '3', '4', '5', '6', '7', '8', '9', 'a', 'b', 'c', 'd', 'e', 'f'].zipIdx ++
    ['A', 'B', 'C', 'D', 'E', 'F'].zipIdx 10

/-- The escape with the given spelling denotes the code unit: a backslash, one or more `u` and four
hexadecimal digits. -/
inductive Denotes : List Char → Nat → Prop
  | mk (n : Nat) {a b c d : Char × Nat} (ha : a ∈ hexDigits) (hb : b ∈ hexDigits)
    (hc : c ∈ hexDigits) (hd : d ∈ hexDigits) :
    Denotes ('\\' :: 'u' :: (List.replicate n 'u' ++ [a.1, b.1, c.1, d.1]))
      (((a.2 * 16 + b.2) * 16 + c.2) * 16 + d.2)

/-- The number of backslashes that a text ends with. -/
def trailing (before : List Char) : Nat := (before.reverse.takeWhile (· == '\\')).length

/-- A part of a source: a character that stays, or an escape and the code unit that it denotes. -/
inductive Piece where
  | plain (c : Char)
  | escape (spelling : List Char) (unit : Nat)

/-- The code units that a piece stands for. -/
def Piece.units : Piece → List Nat
  | .plain c => unitsOf c
  | .escape _ unit => [unit]

/-- The characters behind `before` cut into pieces. There is an escape wherever one is spelled and
the number of backslashes directly before it is even. -/
inductive Divided : (before rest : List Char) → List Piece → Prop
  | nil (before : List Char) : Divided before [] []
  | escape {before spelling rest : List Char} {unit : Nat} {ps : List Piece}
    (heven : trailing before % 2 = 0) (h : Denotes spelling unit)
    (hrest : Divided (before ++ spelling) rest ps) :
    Divided before (spelling ++ rest) (.escape spelling unit :: ps)
  | plain {before rest : List Char} {c : Char} {ps : List Piece}
    (h : trailing before % 2 = 0 → ∀ spelling unit, Denotes spelling unit →
      ¬ spelling <+: c :: rest)
    (hrest : Divided (before ++ [c]) rest ps) :
    Divided before (c :: rest) (.plain c :: ps)

/-! ## What the pieces become -/

/-- A character of the translated text and the characters of the source that it stands for. -/
structure Rendering where
  char : Char
  source : List Char
  escaped : Bool

/-- Two escapes that denote a surrogate pair become one character, and half a pair becomes the
replacement character. -/
def rendered : List Piece → List Rendering
  | [] => []
  | .plain c :: ps => ⟨c, [c], false⟩ :: rendered ps
  | .escape s u :: .escape s' v :: ps =>
    match joinSurrogates? u v with
    | some n => ⟨charOf n, s ++ s', true⟩ :: rendered ps
    | none => ⟨charOf u, s, true⟩ :: rendered (.escape s' v :: ps)
  | .escape s u :: ps => ⟨charOf u, s, true⟩ :: rendered ps

/-- An escape with the given unit is not joined with what follows. -/
def Unjoined (u : Nat) (ps : List Piece) : Prop :=
  ∀ s v ps', ps = .escape s v :: ps' → joinSurrogates? u v = none

section

variable {s s' : List Char} {u v n : Nat} {ps : List Piece}

theorem rendered_plain (c : Char) (ps : List Piece) :
    rendered (.plain c :: ps) = ⟨c, [c], false⟩ :: rendered ps := rfl

theorem rendered_pair (h : joinSurrogates? u v = some n) :
    rendered (.escape s u :: .escape s' v :: ps) = ⟨charOf n, s ++ s', true⟩ :: rendered ps := by
  show (match joinSurrogates? u v with
    | some n => _
    | none => _) = _
  rw [h]

theorem rendered_alone (h : Unjoined u ps) :
    rendered (.escape s u :: ps) = ⟨charOf u, s, true⟩ :: rendered ps := by
  cases ps with
  | nil => rfl
  | cons p ps =>
    cases p with
    | plain c => rfl
    | escape s' v =>
      show (match joinSurrogates? u v with
        | some n => _
        | none => _) = _
      rw [h _ _ _ rfl]

/-- Pieces are characters, pairs of escapes and escapes that are not joined. -/
@[elab_as_elim]
theorem pieces_induction {motive : List Piece → Prop} (nil : motive [])
    (plain : ∀ c ps, motive ps → motive (.plain c :: ps))
    (pair : ∀ s u s' v ps n, joinSurrogates? u v = some n → motive ps →
      motive (.escape s u :: .escape s' v :: ps))
    (alone : ∀ s u ps, Unjoined u ps → motive ps → motive (.escape s u :: ps)) :
    ∀ ps, motive ps
  | [] => nil
  | .plain c :: ps => plain c ps (pieces_induction nil plain pair alone ps)
  | [.escape s u] => alone s u [] nofun nil
  | .escape s u :: .plain c :: ps =>
    alone s u (.plain c :: ps) nofun
      (plain c ps (pieces_induction nil plain pair alone ps))
  | .escape s u :: .escape s' v :: ps => by
    cases h : joinSurrogates? u v with
    | some n => exact pair s u s' v ps n h (pieces_induction nil plain pair alone ps)
    | none =>
      refine alone s u _ (fun _ _ _ heq => ?_) (pieces_induction nil plain pair alone _)
      cases heq
      exact h

end

/-- The place in the source of each byte of the translated text; the source starts at `start`. The
bytes of a character that stays come one by one from the same bytes. -/
def origins (start : Nat) : List Rendering → List Nat
  | [] => []
  | r :: rs =>
    (if r.escaped then List.replicate r.char.utf8Size start
      else List.range' start r.char.utf8Size) ++
      origins (start + (ofChars r.source).size) rs

theorem origins_cons (start : Nat) (r : Rendering) (rs : List Rendering) :
    origins start (r :: rs) =
      (if r.escaped then List.replicate r.char.utf8Size start
        else List.range' start r.char.utf8Size) ++
        origins (start + (ofChars r.source).size) rs := rfl

/-- The code units with the replacement character in the place of each half of a pair that does not
stand beside its other half. -/
def mend : List Nat → List Nat
  | [] => []
  | [u] => [if 0xD800 ≤ u ∧ u < 0xE000 then 0xFFFD else u]
  | u :: v :: us =>
    if 0xD800 ≤ u ∧ u < 0xDC00 ∧ 0xDC00 ≤ v ∧ v < 0xE000 then u :: v :: mend us
    else (if 0xD800 ≤ u ∧ u < 0xE000 then 0xFFFD else u) :: mend (v :: us)

theorem hexDigit_lt {p : Char × Nat} (h : p ∈ hexDigits) : p.2 < 16 := by
  have hall : ∀ p ∈ hexDigits, p.2 < 16 := by decide
  exact hall p h

theorem Denotes.lt {s : List Char} {u : Nat} (h : Denotes s u) : u < 0x10000 := by
  cases h with
  | mk n ha hb hc hd =>
    have := hexDigit_lt ha
    have := hexDigit_lt hb
    have := hexDigit_lt hc
    have := hexDigit_lt hd
    omega

theorem Denotes.ne_nil {s : List Char} {u : Nat} (h : Denotes s u) : s ≠ [] := by
  cases h
  nofun


/-! ## Bytes and characters -/

/-- The byte of a character in ASCII. -/
def byteOf (c : Char) : UInt8 := UInt8.ofNat c.toNat

theorem flatMap_ascii {cs : List Char} (h : ∀ c ∈ cs, c.toNat < 0x80) :
    cs.flatMap String.utf8EncodeChar = cs.map byteOf := by
  induction cs with
  | nil => rfl
  | cons c cs ih =>
    obtain ⟨hc, hcs⟩ := List.forall_mem_cons.mp h
    rw [List.flatMap_cons, utf8EncodeChar_ascii hc, ih hcs]
    rfl

theorem ofChars_cons (c : Char) (cs : List Char) : ofChars (c :: cs) = ofChar c ++ ofChars cs := by
  apply ext_toList
  rw [toList_append, toList_ofChar]
  rfl

theorem size_ofChars_append (cs ds : List Char) :
    (ofChars (cs ++ ds)).size = (ofChars cs).size + (ofChars ds).size := by
  rw [size_eq, ofChars_append, List.length_append, ← size_eq, ← size_eq]

theorem size_ofChar (c : Char) : (ofChar c).size = c.utf8Size := by
  rw [size_eq, toList_ofChar, String.length_utf8EncodeChar]

theorem size_ofChars_one (c : Char) : (ofChars [c]).size = c.utf8Size := by
  rw [ofChars_cons, size_eq, toList_append, List.length_append, ← size_eq, size_ofChar]
  rfl

/-- Bytes in ASCII are characters of their own. -/
theorem ascii_front {cs : List Char} {bs rest : List UInt8}
    (h : cs.flatMap String.utf8EncodeChar = bs ++ rest) (hb : ∀ b ∈ bs, b < 0x80) :
    ∃ ds, cs = bs.map (fun b => Char.ofNat b.toNat) ++ ds ∧
      ds.flatMap String.utf8EncodeChar = rest := by
  induction bs generalizing cs with
  | nil => exact ⟨cs, rfl, h⟩
  | cons b bs ih =>
    obtain ⟨hb, hbs⟩ := List.forall_mem_cons.mp hb
    cases cs with
    | nil => cases h
    | cons c cs =>
      rw [List.flatMap_cons] at h
      by_cases hc : c.toNat < 0x80
      · rw [utf8EncodeChar_ascii hc, List.singleton_append, List.cons_append] at h
        obtain ⟨rfl, htail⟩ := List.cons.inj h
        obtain ⟨ds, rfl, hds⟩ := ih htail hbs
        refine ⟨ds, ?_, hds⟩
        rw [List.map_cons, UInt8.toNat_ofNat_of_lt' (show c.toNat < 256 by omega), Char.ofNat_toNat]
        rfl
      · obtain ⟨b', bs', hbytes, hge⟩ := utf8EncodeChar_head (Nat.not_lt.mp hc)
        rw [hbytes] at h
        rw [(List.cons.inj h).1] at hge
        exact absurd hb (UInt8.not_lt.mpr hge)

/-- What the byte of a hexadecimal digit is. -/
theorem hexDigit_byte {p : Char × Nat} (h : p ∈ hexDigits) :
    p.1.toNat < 0x80 ∧ isHexDigit (byteOf p.1) = true ∧ hexValue (byteOf p.1) = p.2 ∧
      byteOf p.1 ≠ ('u' : UInt8) := by
  have hall : ∀ p ∈ hexDigits, p.1.toNat < 0x80 ∧ isHexDigit (byteOf p.1) = true ∧
      hexValue (byteOf p.1) = p.2 ∧ byteOf p.1 ≠ ('u' : UInt8) := by decide
  exact hall p h

/-- A byte that is taken for a hexadecimal digit is one. -/
theorem mem_hexDigits {b : UInt8} (h : isHexDigit b = true) :
    b < 0x80 ∧ (Char.ofNat b.toNat, hexValue b) ∈ hexDigits := by
  revert h
  exact Literal.forall_byte (p := fun b => isHexDigit b = true →
    b < 0x80 ∧ (Char.ofNat b.toNat, hexValue b) ∈ hexDigits) (by decide +kernel) b

theorem Denotes.ascii {s : List Char} {u : Nat} (h : Denotes s u) : ∀ c ∈ s, c.toNat < 0x80 := by
  cases h with
  | mk n ha hb hc hd =>
    simp only [List.forall_mem_cons, List.forall_mem_append, List.mem_replicate]
    refine ⟨by decide, by decide, ?_, (hexDigit_byte ha).1, (hexDigit_byte hb).1,
      (hexDigit_byte hc).1, (hexDigit_byte hd).1, nofun⟩
    rintro c ⟨-, rfl⟩
    decide

theorem Denotes.size {s : List Char} {u : Nat} (h : Denotes s u) : (ofChars s).size = s.length := by
  rw [size_eq, ofChars, toList_ofList, flatMap_ascii h.ascii, List.length_map]

/-- The run of letters in an escape. -/
theorem skipWhile_u {t : Text} {i n : Nat} {b : UInt8} {bs : List UInt8}
    (ht : t.toList.drop i = List.replicate n ('u' : UInt8) ++ b :: bs) (hb : b ≠ ('u' : UInt8)) :
    t.skipWhile (· == 'u') i = i + n := by
  rw [skipWhile_eq, ht, List.takeWhile_append_of_pos (by simp), List.takeWhile_cons_of_neg
    (by simpa using hb), List.append_nil, List.length_replicate]

theorem fourDigits?_of_drop {t : Text} {i : Nat} {a b c d : UInt8} {bs : List UInt8}
    (ht : t.toList.drop i = a :: b :: c :: d :: bs) (ha : isHexDigit a = true)
    (hb : isHexDigit b = true) (hc : isHexDigit c = true) (hd : isHexDigit d = true) :
    fourDigits? t i =
      some (((hexValue a * 16 + hexValue b) * 16 + hexValue c) * 16 + hexValue d) := by
  have ht1 := drop_succ ht
  have ht2 := drop_succ ht1
  have ht3 := drop_succ ht2
  have hsize : i + 4 ≤ t.size := Nat.succ_le_of_lt (lt_size_of_drop ht3)
  rw [fourDigits?, at0_of_drop ht, at0_of_drop ht1, at0_of_drop ht2, at0_of_drop ht3, ha, hb, hc,
    hd]
  exact if_pos (by simp [hsize])

/-- An escape that is spelled at an offset is found. -/
theorem escapeAt?_of_denotes {t : Text} {i u : Nat} {s : List Char} {rest : List UInt8}
    (h : Denotes s u) (ht : t.toList.drop i = s.map byteOf ++ rest) :
    escapeAt? t i = some (u, i + s.length) := by
  cases h with
  | mk n ha hb hc hd =>
    obtain ⟨-, ha, hav, hau⟩ := hexDigit_byte ha
    obtain ⟨-, hb, hbv, -⟩ := hexDigit_byte hb
    obtain ⟨-, hc, hcv, -⟩ := hexDigit_byte hc
    obtain ⟨-, hd, hdv, -⟩ := hexDigit_byte hd
    simp only [List.map_cons, List.map_append, List.map_replicate, List.cons_append,
      List.append_assoc, List.map_nil, List.nil_append] at ht
    have hu := drop_succ ht
    have hrun := skipWhile_u (n := n + 1) hu hau
    have hdigits := congrArg (List.drop (n + 1)) hu
    rw [List.drop_drop, List.drop_succ_cons, List.drop_left' (List.length_replicate ..)] at hdigits
    rw [escapeAt?, at0_of_drop ht, at0_of_drop hu, if_pos (by decide)]
    simp only [hrun, fourDigits?_of_drop hdigits ha hb hc hd, hav, hbv, hcv, hdv, Option.map_some]
    simp
    omega


theorem drop_of_lt {t : Text} {i : Nat} (h : i < t.size) :
    t.toList.drop i = t.at0 i :: t.toList.drop (i + 1) := by
  have hdrop := List.drop_eq_getElem_cons (show i < t.toList.length from h)
  rw [hdrop, ← at0_of_drop hdrop]

theorem fourDigits?_eq_some {t : Text} {i n : Nat} (h : fourDigits? t i = some n) : ∃ a b c d,
    t.toList.drop i = a :: b :: c :: d :: t.toList.drop (i + 4) ∧ isHexDigit a = true ∧
      isHexDigit b = true ∧ isHexDigit c = true ∧ isHexDigit d = true ∧
      n = ((hexValue a * 16 + hexValue b) * 16 + hexValue c) * 16 + hexValue d := by
  rw [fourDigits?, Option.ite_none_right_eq_some] at h
  obtain ⟨hdigits, hn⟩ := h
  simp only [Bool.and_eq_true, decide_eq_true_eq] at hdigits
  obtain ⟨⟨⟨⟨hsize, ha⟩, hb⟩, hc⟩, hd⟩ := hdigits
  refine ⟨_, _, _, _, ?_, ha, hb, hc, hd, (Option.some.inj hn).symm⟩
  rw [drop_of_lt (by omega), drop_of_lt (by omega), drop_of_lt (by omega), drop_of_lt (by omega)]

/-- What is found as an escape is spelled as one. -/
theorem denotes_of_escapeAt? {t : Text} {i j u : Nat} (h : escapeAt? t i = some (u, j)) :
    ∃ bs, t.toList.drop i = bs ++ t.toList.drop j ∧ (∀ b ∈ bs, b < 0x80) ∧
      Denotes (bs.map fun b => Char.ofNat b.toNat) u ∧ j = i + bs.length := by
  rw [escapeAt?, Option.ite_none_right_eq_some] at h
  obtain ⟨hstart, h⟩ := h
  obtain ⟨hslash, hu⟩ : t.at0 i = (92 : UInt8) ∧ t.at0 (i + 1) = (117 : UInt8) := by
    simpa using hstart
  have hslash := drop_of_at0 rfl hslash
  have hu := drop_of_at0 rfl hu
  obtain ⟨run, hskip, hdrop, hrun, -⟩ := exists_run t (· == 'u') (i + 1)
  have hus : run = List.replicate run.length ('u' : UInt8) :=
    List.eq_replicate_of_mem fun b hb => by simpa using hrun b hb
  rw [hskip] at h
  obtain ⟨n, hdigits, hj⟩ := Option.map_eq_some_iff.mp h
  obtain ⟨a, b, c, d, hrest, ha, hb, hc, hd, rfl⟩ := fourDigits?_eq_some hdigits
  obtain ⟨rfl, rfl⟩ := Prod.mk.inj hj
  obtain ⟨m, hm⟩ : ∃ m, run.length = m + 1 := by
    refine Nat.exists_eq_succ_of_ne_zero fun hzero => ?_
    rw [hzero, Nat.add_zero, hu] at hrest
    rw [← (List.cons.inj hrest).1] at ha
    exact absurd ha (by decide)
  rw [hm] at hus hrest hdrop
  have hrun : ∀ b ∈ run, b < (0x80 : UInt8) := by
    intro b hb
    rw [hus] at hb
    rw [(List.mem_replicate.mp hb).2]
    decide
  obtain ⟨ha, ha'⟩ := mem_hexDigits ha
  obtain ⟨hb, hb'⟩ := mem_hexDigits hb
  obtain ⟨hc, hc'⟩ := mem_hexDigits hc
  obtain ⟨hd, hd'⟩ := mem_hexDigits hd
  refine ⟨('\\' : UInt8) :: (run ++ [a, b, c, d]), ?_, ?_, ?_, ?_⟩
  · rw [hslash, hdrop, hrest, hm]
    simp
  · simp only [List.forall_mem_cons, List.forall_mem_append]
    exact ⟨by decide, hrun, ha, hb, hc, hd, nofun⟩
  · rw [hus]
    rw [List.map_cons, List.map_append, List.map_replicate, List.replicate_succ]
    exact Denotes.mk m ha' hb' hc' hd'
  · simp
    omega

/-- Whether an escape is spelled behind some characters decides whether one is found there. -/
theorem escapeAt?_isSome_iff {t : Text} {i : Nat} {cs : List Char}
    (ht : t.toList.drop i = cs.flatMap String.utf8EncodeChar) :
    (∃ p, escapeAt? t i = some p) ↔ ∃ s u, Denotes s u ∧ s <+: cs := by
  constructor
  · rintro ⟨⟨u, j⟩, h⟩
    obtain ⟨bs, hbs, hascii, hs, -⟩ := denotes_of_escapeAt? h
    obtain ⟨ds, hds, -⟩ := ascii_front (ht.symm.trans hbs) hascii
    exact ⟨_, u, hs, ds, hds.symm⟩
  · rintro ⟨s, u, hs, ds, rfl⟩
    rw [List.flatMap_append, flatMap_ascii hs.ascii] at ht
    exact ⟨_, escapeAt?_of_denotes hs ht⟩

/-- At most one escape is spelled at a place. -/
theorem Denotes.unique {s s' cs cs' : List Char} {u u' : Nat} (h : Denotes s u) (h' : Denotes s' u')
    (heq : s ++ cs = s' ++ cs') : s = s' ∧ u = u' := by
  have hfind := escapeAt?_of_denotes (t := ofChars (s ++ cs)) (i := 0) h (by
    rw [ofChars_append, ofChars, toList_ofList, flatMap_ascii h.ascii]
    rfl)
  have hfind' := escapeAt?_of_denotes (t := ofChars (s ++ cs)) (i := 0) h' (by
    rw [heq, ofChars_append, ofChars, toList_ofList, flatMap_ascii h'.ascii]
    rfl)
  rw [hfind] at hfind'
  obtain ⟨hu, hlength⟩ := Prod.mk.inj (Option.some.inj hfind')
  exact ⟨(List.append_inj heq (by omega)).1, hu⟩

/-- A source is cut into pieces in one way only. -/
theorem Divided.unique {before rest : List Char} {ps qs : List Piece} (h : Divided before rest ps)
    (h' : Divided before rest qs) : ps = qs := by
  induction h generalizing qs with
  | nil before =>
    generalize hrest : ([] : List Char) = rest at h'
    cases h' with
    | nil => rfl
    | escape _ hs =>
      exact absurd (List.append_eq_nil_iff.mp hrest.symm).1 hs.ne_nil
    | plain => cases hrest
  | @escape before s rest u ps heven hs _ ih =>
    generalize hcs : s ++ rest = cs at h'
    cases h' with
    | nil => exact absurd (List.append_eq_nil_iff.mp hcs).1 hs.ne_nil
    | escape _ hs' hrest' =>
      obtain ⟨rfl, rfl⟩ := hs.unique hs' hcs
      obtain rfl := List.append_cancel_left hcs
      rw [ih hrest']
    | plain hnone _ => exact absurd ⟨rest, hcs⟩ (hnone heven s u hs)
  | @plain before rest c ps hnone _ ih =>
    generalize hcs : c :: rest = cs at h'
    cases h' with
    | nil => cases hcs
    | @escape _ s rest' u _ heven hs _ => exact absurd ⟨rest', hcs.symm⟩ (hnone heven s u hs)
    | plain _ hrest' =>
      obtain ⟨rfl, rfl⟩ := List.cons.inj hcs
      rw [ih hrest']

/-- Every source can be cut into pieces. -/
theorem exists_divided (before rest : List Char) : ∃ ps, Divided before rest ps := by
  induction hn : rest.length using Nat.strong_induction_on generalizing before rest with
  | _ n ih =>
  by_cases h : trailing before % 2 = 0 ∧ ∃ s u, Denotes s u ∧ s <+: rest
  · obtain ⟨heven, s, u, hs, cs, rfl⟩ := h
    have hpos := List.length_pos_iff.mpr hs.ne_nil
    rw [List.length_append] at hn
    obtain ⟨ps, hps⟩ := ih cs.length (by omega) (before ++ s) cs rfl
    exact ⟨_, .escape heven hs hps⟩
  · cases rest with
    | nil => exact ⟨[], .nil before⟩
    | cons c cs =>
      obtain ⟨ps, hps⟩ := ih cs.length (by simp [← hn]) (before ++ [c]) cs rfl
      exact ⟨_, .plain (fun heven s u hs hfront => h ⟨heven, s, u, hs, hfront⟩) hps⟩


/-! ## The loop -/

theorem trailing_concat (before : List Char) (c : Char) :
    trailing (before ++ [c]) = if c = '\\' then trailing before + 1 else 0 := by
  rw [trailing, List.reverse_concat, List.takeWhile_cons]
  by_cases h : c = '\\' <;> simp [h, trailing]

theorem Denotes.trailing {s : List Char} {u : Nat} (h : Denotes s u) (before : List Char) :
    trailing (before ++ s) = 0 := by
  have hall : ∀ p ∈ hexDigits, p.1 ≠ '\\' := by decide
  cases h with
  | @mk n a b c d ha hb hc hd =>
    have hlast : before ++ '\\' :: 'u' :: (List.replicate n 'u' ++ [a.1, b.1, c.1, d.1]) =
        before ++ '\\' :: 'u' :: (List.replicate n 'u' ++ [a.1, b.1, c.1]) ++ [d.1] := by simp
    rw [hlast, trailing_concat, if_neg (hall d hd)]

section

variable {t : Text} {i : Nat} {odd changed : Bool} {out : Text} {offsets : Array Nat}

/-- A byte that starts no escape is copied. -/
theorem translateFrom_byte {b : UInt8} {rest : List UInt8} (fuel : Nat)
    (ht : t.toList.drop i = b :: rest) (hnone : odd = false → escapeAt? t i = none) :
    translateFrom t i odd out offsets changed (fuel + 1) =
      translateFrom t (i + 1) (b == '\\' && !odd) (out.push b) (offsets.push i) changed fuel := by
  have hescape : (if odd then none else codePointAt? t i) = none := by
    cases odd with
    | true => rfl
    | false => simp [codePointAt?, hnone rfl]
  rw [translateFrom, if_pos (lt_size_of_drop ht)]
  simp only [hescape, at0_of_drop ht]

theorem escapeAt?_of_ne {b : UInt8} {rest : List UInt8} (ht : t.toList.drop i = b :: rest)
    (hb : b ≠ ('\\' : UInt8)) : escapeAt? t i = none := by
  rw [escapeAt?, at0_of_drop ht, beq_eq_false_iff_ne.mpr hb, Bool.false_and]
  rfl

/-- Bytes beyond ASCII are copied. -/
theorem translateFrom_bytes {bs rest : List UInt8} (fuel : Nat) (hbs : ∀ b ∈ bs, 0x80 ≤ b)
    (ht : t.toList.drop i = bs ++ rest) :
    translateFrom t i odd out offsets changed (bs.length + fuel) =
      translateFrom t (i + bs.length) (odd && bs.isEmpty) (out ++ ofList bs)
        (offsets ++ (List.range' i bs.length).toArray) changed fuel := by
  induction bs generalizing i odd out offsets with
  | nil =>
    have hout : out ++ ofList [] = out := ext_toList (by simp)
    simp [hout]
  | cons b bs ih =>
    obtain ⟨hb, hbs⟩ := List.forall_mem_cons.mp hbs
    have hslash : b ≠ ('\\' : UInt8) := by
      rintro rfl
      exact absurd hb (by decide)
    have hout : out.push b ++ ofList bs = out ++ ofList (b :: bs) := ext_toList (by simp)
    have hoffsets : offsets.push i ++ (List.range' (i + 1) bs.length).toArray =
        offsets ++ (List.range' i (bs.length + 1)).toArray := by
      apply Array.toList_inj.mp
      simp [List.range'_succ]
    rw [List.length_cons, Nat.add_right_comm,
      translateFrom_byte _ ht fun _ => escapeAt?_of_ne ht hslash, beq_eq_false_iff_ne.mpr hslash,
      Bool.false_and, ih hbs (drop_succ ht), hout, hoffsets, Nat.add_assoc, Nat.add_comm 1]
    simp

/-- A character that starts no escape is copied. -/
theorem translateFrom_char {c : Char} {rest : List UInt8} (fuel : Nat)
    (ht : t.toList.drop i = String.utf8EncodeChar c ++ rest)
    (hnone : odd = false → escapeAt? t i = none) :
    translateFrom t i odd out offsets changed (c.utf8Size + fuel) =
      translateFrom t (i + c.utf8Size) (c == '\\' && !odd) (out ++ ofChar c)
        (offsets ++ (List.range' i c.utf8Size).toArray) changed fuel := by
  have hout : out ++ ofList (String.utf8EncodeChar c) = out ++ ofChar c :=
    ext_toList (by rw [toList_append, toList_append, toList_ofChar, toList_ofList])
  have hlength := String.length_utf8EncodeChar c
  by_cases hc : c.toNat < 0x80
  · rw [utf8EncodeChar_ascii hc] at ht hlength hout
    have hpush : out.push (UInt8.ofNat c.toNat) = out ++ ofList [UInt8.ofNat c.toNat] :=
      ext_toList (by simp)
    have hslash : (UInt8.ofNat c.toNat == ('\\' : UInt8)) = (c == '\\') := by
      rw [Bool.eq_iff_iff, beq_iff_eq, beq_iff_eq]
      constructor
      · intro h
        have hn := congrArg UInt8.toNat h
        rw [UInt8.toNat_ofNat_of_lt' (show c.toNat < 256 by omega)] at hn
        rw [← Char.ofNat_toNat c, hn]
        rfl
      · rintro rfl
        rfl
    rw [← hlength, ← hout, List.length_singleton, Nat.add_comm, translateFrom_byte _ ht hnone,
      hpush, hslash]
    rfl
  · obtain ⟨b, bs, hbs, -⟩ := utf8EncodeChar_head (Nat.not_lt.mp hc)
    have hslash : c ≠ '\\' := by
      rintro rfl
      exact hc (by decide)
    rw [← hlength, translateFrom_bytes fuel (utf8EncodeChar_ge (Nat.not_lt.mp hc)) ht, hout,
      beq_eq_false_iff_ne.mpr hslash, hbs, List.isEmpty_cons, Bool.and_false, Bool.false_and]

theorem Denotes.lt_size {s : List Char} {u : Nat} {rest : List UInt8} (h : Denotes s u)
    (ht : t.toList.drop i = s.map byteOf ++ rest) : i < t.size ∧ 0 < s.length := by
  have hpos := List.length_pos_iff.mpr h.ne_nil
  have hlength := congrArg List.length ht
  simp [← size_eq] at hlength
  omega

theorem codePointAt?_pair {u v n : Nat} {s s' : List Char} {rest : List UInt8} (hs : Denotes s u)
    (hs' : Denotes s' v) (hjoin : joinSurrogates? u v = some n)
    (ht : t.toList.drop i = s.map byteOf ++ (s'.map byteOf ++ rest)) :
    codePointAt? t i = some (n, i + s.length + s'.length) := by
  have hdrop : t.toList.drop (i + s.length) = s'.map byteOf ++ rest := by
    rw [← List.drop_drop, ht, List.drop_left' (List.length_map ..)]
  simp only [codePointAt?, escapeAt?_of_denotes hs ht, escapeAt?_of_denotes hs' hdrop, hjoin]

theorem codePointAt?_single {u : Nat} {s : List Char} {rest : List UInt8} (hs : Denotes s u)
    (ht : t.toList.drop i = s.map byteOf ++ rest)
    (hnext : ∀ v j, escapeAt? t (i + s.length) = some (v, j) → joinSurrogates? u v = none) :
    codePointAt? t i = some (u, i + s.length) := by
  simp only [codePointAt?, escapeAt?_of_denotes hs ht]
  split
  next v j h => rw [hnext v j h]
  next => rfl

/-- What one rendering and the rest add together. -/
theorem add_rendering (changed : Bool) (r : Rendering) (rs : List Rendering) {j : Nat}
    (hj : j = i + (ofChars r.source).size) :
    (out ++ ofChar r.char ++ ofChars (rs.map (·.char)),
      offsets ++ (if r.escaped then List.replicate r.char.utf8Size i
        else List.range' i r.char.utf8Size).toArray ++ (origins j rs).toArray,
      (changed || r.escaped) || rs.any (·.escaped)) =
    (out ++ ofChars ((r :: rs).map (·.char)), offsets ++ (origins i (r :: rs)).toArray,
      changed || (r :: rs).any (·.escaped)) := by
  refine Prod.ext ?_ (Prod.ext ?_ ?_)
  · show out ++ ofChar r.char ++ ofChars (rs.map (·.char)) = _
    rw [append_assoc, ← ofChars_cons, List.map_cons]
  · apply Array.toList_inj.mp
    simp [origins_cons, hj]
  · show (changed || r.escaped || rs.any (·.escaped)) = _
    rw [List.any_cons, Bool.or_assoc]

/-- An escape, or two that are a pair, adds a rendering. -/
theorem translateFrom_escape {n j fuel : Nat} {source : List Char} {rs : List Rendering}
    (hi : i < t.size) (hlt : i < j) (hj : j = i + (ofChars source).size)
    (h : codePointAt? t i = some (n, j)) (hfuel : t.size ≤ i + fuel)
    (hrest : ∀ {out : Text} {offsets : Array Nat} {fuel : Nat}, t.size ≤ j + fuel →
      translateFrom t j false out offsets true fuel =
        (out ++ ofChars (rs.map (·.char)), offsets ++ (origins j rs).toArray,
          true || rs.any (·.escaped))) :
    translateFrom t i false out offsets changed fuel =
      (out ++ ofChars ((⟨charOf n, source, true⟩ :: rs : List Rendering).map (·.char)),
        offsets ++ (origins i (⟨charOf n, source, true⟩ :: rs)).toArray,
        changed || (⟨charOf n, source, true⟩ :: rs : List Rendering).any (·.escaped)) := by
  obtain ⟨fuel, rfl⟩ := Nat.exists_eq_add_of_lt (show 0 < fuel by omega)
  rw [translateFrom, if_pos hi]
  simp only [h, Bool.false_eq_true, if_false, push_range, ofCodePoint, size_ofChar]
  rw [hrest (by omega), ← add_rendering _ ⟨charOf n, source, true⟩ rs hj]
  simp

/-- An escape that is found behind an even number of backslashes is the first piece. -/
theorem Divided.head {before rest : List Char} {ps : List Piece} {v j : Nat}
    (h : Divided before rest ps) (heven : trailing before = 0)
    (ht : t.toList.drop i = rest.flatMap String.utf8EncodeChar)
    (hescape : escapeAt? t i = some (v, j)) : ∃ s ps', ps = .escape s v :: ps' := by
  obtain ⟨s, u, hs, hfront⟩ := (escapeAt?_isSome_iff ht).mp ⟨_, hescape⟩
  cases h with
  | nil => exact absurd (List.prefix_nil.mp hfront) hs.ne_nil
  | @escape _ s' _ v' ps' _ hs' _ =>
    rw [List.flatMap_append, flatMap_ascii hs'.ascii] at ht
    have hfound := escapeAt?_of_denotes hs' ht
    rw [hescape] at hfound
    cases hfound
    exact ⟨s', ps', rfl⟩
  | plain hnone _ => exact absurd hfront (hnone (by rw [heven]) s u hs)

/-- What the loop adds for the pieces of the rest of a source. -/
theorem translateFrom_divided {before rest : List Char} {ps : List Piece} {fuel : Nat}
    (h : Divided before rest ps) (ht : t.toList.drop i = rest.flatMap String.utf8EncodeChar)
    (hodd : odd = decide (trailing before % 2 = 1)) (hfuel : t.size ≤ i + fuel) :
    translateFrom t i odd out offsets changed fuel =
      (out ++ ofChars ((rendered ps).map (·.char)), offsets ++ (origins i (rendered ps)).toArray,
        changed || (rendered ps).any (·.escaped)) := by
  induction ps using pieces_induction generalizing before rest i odd out offsets changed fuel with
  | nil =>
    cases h
    have hi : ¬ i < t.size := by
      have := congrArg List.length ht
      simp [size_eq] at this ⊢
      omega
    have hout : out ++ ofChars [] = out := ext_toList (by simp [ofChars])
    have hrendered : rendered [] = [] := rfl
    have horigins : origins i [] = [] := rfl
    cases fuel <;> simp [translateFrom, hi, hrendered, horigins, hout]
  | plain c ps ih =>
    cases h with
    | @plain _ rest _ _ hnone hrest =>
    have hdrop : t.toList.drop (i + c.utf8Size) = rest.flatMap String.utf8EncodeChar := by
      rw [← List.drop_drop, ht, List.flatMap_cons,
        List.drop_left' (String.length_utf8EncodeChar c)]
    have hescape : odd = false → escapeAt? t i = none := by
      intro hfalse
      rw [hodd, decide_eq_false_iff_not] at hfalse
      refine Option.eq_none_iff_forall_not_mem.mpr fun p hp => ?_
      obtain ⟨s, u, hs, hfront⟩ := (escapeAt?_isSome_iff ht).mp ⟨p, hp⟩
      exact hnone (by omega) s u hs hfront
    obtain ⟨fuel, rfl⟩ : ∃ n, fuel = c.utf8Size + n := by
      have := congrArg List.length ht
      simp [← size_eq] at this
      exact Nat.exists_eq_add_of_le (by omega)
    have hnext : (c == '\\' && !odd) = decide (trailing (before ++ [c]) % 2 = 1) := by
      rw [trailing_concat, hodd]
      by_cases hc : c = '\\'
      · simp only [hc, beq_self_eq_true, Bool.true_and, if_true, ← decide_not, decide_eq_decide]
        omega
      · simp [hc]
    rw [List.flatMap_cons] at ht
    rw [translateFrom_char fuel ht hescape, ih hrest hdrop hnext (by omega), rendered_plain]
    simpa using add_rendering changed ⟨c, [c], false⟩ (rendered ps) (by rw [size_ofChars_one])
  | pair s u s' v ps n hjoin ih =>
    cases h with
    | @escape _ _ _ _ _ heven hs hrest =>
    cases hrest with
    | @escape _ _ rest _ _ _ hs' hrest =>
    rw [List.flatMap_append, List.flatMap_append, flatMap_ascii hs.ascii,
      flatMap_ascii hs'.ascii] at ht
    obtain ⟨hi, hpos⟩ := hs.lt_size ht
    have hdrop : t.toList.drop (i + s.length + s'.length) =
        rest.flatMap String.utf8EncodeChar := by
      rw [← List.drop_drop, ← List.drop_drop, ht, List.drop_left' (List.length_map ..),
        List.drop_left' (List.length_map ..)]
    have hsize : i + s.length + s'.length = i + (ofChars (s ++ s')).size := by
      rw [size_ofChars_append, hs.size, hs'.size, Nat.add_assoc]
    rw [rendered_pair hjoin]
    simp only [hodd, heven]
    exact translateFrom_escape hi (by omega) hsize (codePointAt?_pair hs hs' hjoin ht) hfuel
      (ih hrest hdrop (by rw [hs'.trailing]; rfl))
  | alone s u ps halone ih =>
    cases h with
    | @escape _ _ rest _ _ heven hs hrest =>
    rw [List.flatMap_append, flatMap_ascii hs.ascii] at ht
    obtain ⟨hi, hpos⟩ := hs.lt_size ht
    have hdrop : t.toList.drop (i + s.length) = rest.flatMap String.utf8EncodeChar := by
      rw [← List.drop_drop, ht, List.drop_left' (List.length_map ..)]
    have hsingle := codePointAt?_single hs ht fun v j h => by
      obtain ⟨_, _, hps⟩ := hrest.head (hs.trailing before) hdrop h
      exact halone _ _ _ hps
    rw [rendered_alone halone]
    simp only [hodd, heven]
    exact translateFrom_escape hi (by omega) (by rw [hs.size]) hsingle hfuel
      (ih hrest hdrop (by rw [hs.trailing]; rfl))

end

/-! ## Code units -/

theorem joinSurrogates?_eq_none {u v : Nat} (h : joinSurrogates? u v = none) :
    ¬ (0xD800 ≤ u ∧ u < 0xDC00 ∧ 0xDC00 ≤ v ∧ v < 0xE000) := by
  rintro ⟨h1, h2, h3, h4⟩
  simp [joinSurrogates?, h1, h2, h3, h4] at h

theorem toNat_ofNat_of_valid {n : Nat} (h : n.isValidChar) : (Char.ofNat n).toNat = n := by
  rw [Char.ofNat, dif_pos h]
  rfl

theorem joinSurrogates?_eq_some {u v n : Nat} (h : joinSurrogates? u v = some n) :
    (0xD800 ≤ u ∧ u < 0xDC00 ∧ 0xDC00 ≤ v ∧ v < 0xE000) ∧ unitsOf (charOf n) = [u, v] := by
  rw [joinSurrogates?, Option.ite_none_right_eq_some] at h
  obtain ⟨hpair, hn⟩ := h
  simp only [Bool.and_eq_true, decide_eq_true_eq, and_assoc] at hpair
  refine ⟨hpair, ?_⟩
  obtain ⟨h1, h2, h3, h4⟩ := hpair
  have hn := Option.some.inj hn
  have hvalid : n.isValidChar := Or.inr ⟨by omega, by omega⟩
  simp only [unitsOf, charOf, if_pos hvalid, toNat_ofNat_of_valid hvalid]
  have hhigh : 0xD800 + (n - 0x10000) / 0x400 = u := by omega
  have hlow : 0xDC00 + (n - 0x10000) % 0x400 = v := by omega
  rw [if_neg (by omega), hhigh, hlow]

/-- The code unit of a character that a unit alone stands for. -/
theorem unitsOf_charOf {u : Nat} (h : u < 0x10000) :
    unitsOf (charOf u) = [if 0xD800 ≤ u ∧ u < 0xE000 then 0xFFFD else u] := by
  by_cases hu : 0xD800 ≤ u ∧ u < 0xE000
  · have hvalid : ¬ u.isValidChar := by
      simp only [Nat.isValidChar]
      omega
    rw [charOf, if_neg hvalid, if_pos hu]
    rfl
  · have hvalid : u.isValidChar := by
      simp only [Nat.isValidChar]
      omega
    rw [charOf, if_pos hvalid, if_neg hu, unitsOf]
    simp only [toNat_ofNat_of_valid hvalid, if_pos h]

theorem mend_cons {u : Nat} {us : List Nat} (h : ∀ v ∈ us.head?,
    ¬ (0xD800 ≤ u ∧ u < 0xDC00 ∧ 0xDC00 ≤ v ∧ v < 0xE000)) :
    mend (u :: us) = (if 0xD800 ≤ u ∧ u < 0xE000 then 0xFFFD else u) :: mend us := by
  cases us with
  | nil => rfl
  | cons v us => exact if_neg (h v rfl)

theorem mend_pair {u v : Nat} (h : 0xD800 ≤ u ∧ u < 0xDC00 ∧ 0xDC00 ≤ v ∧ v < 0xE000)
    (us : List Nat) : mend (u :: v :: us) = u :: v :: mend us :=
  if_pos h

/-- The code units of a character stay as they are. -/
theorem mend_unitsOf (c : Char) (us : List Nat) :
    mend (unitsOf c ++ us) = unitsOf c ++ mend us := by
  have hc := toNat_not_surrogate c
  have hlt := toNat_lt c
  rw [unitsOf]
  by_cases h : c.toNat < 0x10000
  · simp only [h, if_true, List.singleton_append]
    rw [mend_cons fun v _ hpair => hc ⟨hpair.1, by omega⟩, if_neg hc]
  · simp only [h, if_false, List.cons_append, List.nil_append]
    exact mend_pair (by omega) us

/-- A character does not start with the second half of a pair. -/
theorem head_unitsOf (c : Char) (us : List Nat) :
    ∀ v ∈ (unitsOf c ++ us).head?, ¬ (0xDC00 ≤ v ∧ v < 0xE000) := by
  have hc := toNat_not_surrogate c
  have hlt := toNat_lt c
  rw [unitsOf]
  by_cases h : c.toNat < 0x10000
  · simp only [h, if_true, List.singleton_append, List.head?_cons]
    rintro v ⟨⟩
    omega
  · simp only [h, if_false, List.cons_append, List.head?_cons]
    rintro v ⟨⟩
    omega

theorem Divided.unit_lt {before rest s : List Char} {ps : List Piece} {u : Nat}
    (h : Divided before rest ps) (hmem : .escape s u ∈ ps) : u < 0x10000 := by
  induction h with
  | nil => cases hmem
  | escape _ hs _ ih =>
    rcases List.mem_cons.mp hmem with heq | hmem
    · cases heq
      exact hs.lt
    · exact ih hmem
  | plain _ _ ih =>
    rcases List.mem_cons.mp hmem with heq | hmem
    · cases heq
    · exact ih hmem

/-- The code units of what the pieces become are those of the pieces, mended. -/
theorem units_rendered {ps : List Piece} (h : ∀ s u, .escape s u ∈ ps → u < 0x10000) :
    ((rendered ps).map (·.char)).flatMap unitsOf = mend (ps.flatMap Piece.units) := by
  induction ps using pieces_induction with
  | nil => rfl
  | plain c ps ih =>
    rw [rendered_plain, List.map_cons, List.flatMap_cons, List.flatMap_cons, Piece.units,
      mend_unitsOf, ih fun s u hmem => h s u (List.mem_cons_of_mem _ hmem)]
  | pair s u s' v ps n hjoin ih =>
    obtain ⟨hpair, hunits⟩ := joinSurrogates?_eq_some hjoin
    simp only [rendered_pair hjoin, List.map_cons, List.flatMap_cons, hunits, Piece.units,
      List.cons_append, List.nil_append]
    rw [mend_pair hpair, ih fun s u hmem =>
      h s u (List.mem_cons_of_mem _ (List.mem_cons_of_mem _ hmem))]
  | alone s u ps halone ih =>
    have hu := h s u List.mem_cons_self
    have ih := ih fun s u hmem => h s u (List.mem_cons_of_mem _ hmem)
    have hnot : ∀ v ∈ (ps.flatMap Piece.units).head?,
        ¬ (0xD800 ≤ u ∧ u < 0xDC00 ∧ 0xDC00 ≤ v ∧ v < 0xE000) := by
      cases ps with
      | nil => nofun
      | cons p ps =>
        cases p with
        | plain c => exact fun v hv hpair => head_unitsOf c _ v hv hpair.2.2
        | escape s' v =>
          rintro w ⟨⟩
          exact joinSurrogates?_eq_none (halone _ _ _ rfl)
    rw [rendered_alone halone, List.map_cons, List.flatMap_cons, unitsOf_charOf hu, ih]
    exact (mend_cons hnot).symm

/-! ## Translation -/

/-- Whether a piece is an escape. -/
def Piece.isEscape : Piece → Bool
  | .plain _ => false
  | .escape _ _ => true

/-- Something was replaced if there is an escape. -/
theorem any_rendered (ps : List Piece) :
    (rendered ps).any (·.escaped) = ps.any Piece.isEscape := by
  induction ps using pieces_induction with
  | nil => rfl
  | plain c ps ih => simpa [rendered_plain, Piece.isEscape] using ih
  | pair s u s' v ps n hjoin ih => simp [rendered_pair hjoin, Piece.isEscape]
  | alone s u ps halone ih => simp [rendered_alone halone, Piece.isEscape]

/-- Without escapes everything stays as it is. -/
theorem Divided.chars_plain {before rest : List Char} {ps : List Piece}
    (h : Divided before rest ps) (hplain : ps.any Piece.isEscape = false) :
    (rendered ps).map (·.char) = rest := by
  induction h with
  | nil => rfl
  | escape => simp [Piece.isEscape] at hplain
  | plain _ _ ih =>
    simpa [rendered_plain, Piece.isEscape] using ih (by simpa [Piece.isEscape] using hplain)

/-- The renderings stand for the whole source. -/
theorem Divided.sources {before rest : List Char} {ps : List Piece} (h : Divided before rest ps) :
    (rendered ps).flatMap (·.source) = rest := by
  induction ps using pieces_induction generalizing before rest with
  | nil =>
    cases h
    rfl
  | plain c ps ih =>
    cases h with
    | plain _ hrest => rw [rendered_plain, List.flatMap_cons, ih hrest]; rfl
  | pair s u s' v ps n hjoin ih =>
    cases h with
    | escape _ _ hrest =>
    cases hrest with
    | escape _ _ hrest =>
      rw [rendered_pair hjoin, List.flatMap_cons, ih hrest, List.append_assoc]
  | alone s u ps halone ih =>
    cases h with
    | escape _ _ hrest => rw [rendered_alone halone, List.flatMap_cons, ih hrest]

/-- A character that is no escape stands for itself. -/
theorem source_rendered (ps : List Piece) :
    ∀ r ∈ rendered ps, r.escaped = false → r.source = [r.char] := by
  induction ps using pieces_induction with
  | nil => nofun
  | plain c ps ih => simpa [rendered_plain] using ih
  | pair s u s' v ps n hjoin ih => simpa [rendered_pair hjoin] using ih
  | alone s u ps halone ih => simpa [rendered_alone halone] using ih

/-- The places of the bytes lie in the source. -/
theorem origins_bounds {rs : List Rendering}
    (h : ∀ r ∈ rs, r.escaped = false → r.source = [r.char]) (start : Nat) :
    ∀ o ∈ origins start rs, start ≤ o ∧ o ≤ start + (ofChars (rs.flatMap (·.source))).size := by
  induction rs generalizing start with
  | nil => nofun
  | cons r rs ih =>
    obtain ⟨hr, hrs⟩ := List.forall_mem_cons.mp h
    rw [origins_cons, List.flatMap_cons, size_ofChars_append]
    intro o ho
    rcases List.mem_append.mp ho with ho | ho
    · split at ho
      · obtain rfl := (List.mem_replicate.mp ho).2
        omega
      next hescaped =>
        have hsize := size_ofChars_one r.char
        rw [← hr (by simpa using hescaped)] at hsize
        have := List.mem_range'_1.mp ho
        omega
    · have := ih hrs _ o ho
      omega

/-- The places of the bytes do not go back. -/
theorem origins_sorted {rs : List Rendering}
    (h : ∀ r ∈ rs, r.escaped = false → r.source = [r.char]) (start : Nat) :
    (origins start rs).Pairwise (· ≤ ·) := by
  induction rs generalizing start with
  | nil => exact .nil
  | cons r rs ih =>
    obtain ⟨hr, hrs⟩ := List.forall_mem_cons.mp h
    rw [origins_cons, List.pairwise_append]
    refine ⟨?_, ih hrs _, fun o ho o' ho' => ?_⟩
    · split
      · exact List.pairwise_replicate.mpr (.inr (Nat.le_refl _))
      · exact List.pairwise_le_range'
    · have hbound := (origins_bounds hrs _ o' ho').1
      refine Nat.le_trans ?_ hbound
      split at ho
      · rw [(List.mem_replicate.mp ho).2]
        omega
      next hescaped =>
        have hsize := size_ofChars_one r.char
        rw [← hr (by simpa using hescaped)] at hsize
        have := List.mem_range'_1.mp ho
        omega

theorem length_origins (rs : List Rendering) (start : Nat) :
    (origins start rs).length = (ofChars (rs.map (·.char))).size := by
  induction rs generalizing start with
  | nil => rfl
  | cons r rs ih =>
    have hsize : (ofChars ((r :: rs).map (·.char))).size =
        r.char.utf8Size + (ofChars (rs.map (·.char))).size := by
      rw [List.map_cons, ← List.singleton_append, size_ofChars_append, size_ofChars_one]
    rw [origins_cons, List.length_append, ih, hsize]
    split <;> simp

theorem findTextFrom_isSome {t p : Text} {i j n : Nat} (h : t.hasAt j p = true) (hle : i ≤ j)
    (hlt : j < i + n) : (t.findTextFrom p i n).isSome = true := by
  fun_induction Text.findTextFrom t p i n with
  | case1 => omega
  | case2 i n hat => rfl
  | case3 i n hat ih =>
    have hne : i ≠ j := by
      rintro rfl
      exact hat h
    exact ih (by omega) (by omega)

/-- A source without the two letters that every escape starts with has no escapes. -/
theorem escapeAt?_of_contains {t : Text} (h : t.contains "\\u" = false) (i : Nat) :
    escapeAt? t i = none := by
  refine Option.eq_none_iff_forall_not_mem.mpr fun p hp => ?_
  rw [Option.mem_def, escapeAt?, Option.ite_none_right_eq_some] at hp
  obtain ⟨hslash, hu⟩ : t.at0 i = (92 : UInt8) ∧ t.at0 (i + 1) = (117 : UInt8) := by
    simpa using hp.1
  have hslash := drop_of_at0 rfl hslash
  have hu := drop_of_at0 rfl hu
  have hsize := lt_size_of_drop hu
  have hat : t.hasAt i "\\u" = true := by
    refine (hasAt_iff _ _ _).mpr ⟨hsize, t.toList.drop (i + 1 + 1), ?_⟩
    rw [hslash, hu]
    rfl
  have hfound := findTextFrom_isSome hat (Nat.zero_le i) (n := t.size + 1) (by omega)
  rw [← findText?, ← contains, h] at hfound
  cases hfound

theorem Divided.any_isEscape {t : Text} {i : Nat} {before rest : List Char} {ps : List Piece}
    (h : Divided before rest ps) (ht : t.toList.drop i = rest.flatMap String.utf8EncodeChar)
    (hnone : ∀ i, escapeAt? t i = none) : ps.any Piece.isEscape = false := by
  induction h generalizing i with
  | nil => rfl
  | escape _ hs _ _ =>
    rw [List.flatMap_append, flatMap_ascii hs.ascii] at ht
    have hfound := escapeAt?_of_denotes hs ht
    rw [hnone] at hfound
    cases hfound
  | @plain _ _ c _ _ _ ih =>
    refine ih (i := i + c.utf8Size) ?_
    rw [← List.drop_drop, ht, List.flatMap_cons, List.drop_left' (String.length_utf8EncodeChar c)]

/-- What translating gives for the pieces of a source. -/
theorem translate_divided {cs : List Char} {ps : List Piece} (h : Divided [] cs ps) :
    (translate (ofChars cs)).text = ofChars ((rendered ps).map (·.char)) ∧
      (translate (ofChars cs)).offsets = if ps.any Piece.isEscape then
        some ((origins 0 (rendered ps)).toArray.push (ofChars cs).size) else none := by
  have hsame (hplain : ps.any Piece.isEscape = false) :
      (⟨ofChars cs, none⟩ : Translated).text = ofChars ((rendered ps).map (·.char)) ∧
        (⟨ofChars cs, none⟩ : Translated).offsets = if ps.any Piece.isEscape then
          some ((origins 0 (rendered ps)).toArray.push (ofChars cs).size) else none := by
    rw [h.chars_plain hplain, hplain]
    exact ⟨rfl, rfl⟩
  have hloop : translateFrom (ofChars cs) 0 false {} #[] false (ofChars cs).size = _ :=
    translateFrom_divided h rfl rfl (by omega)
  rw [any_rendered, empty_append, Array.empty_append, Bool.false_or] at hloop
  rw [translate]
  split
  next =>
    rw [hloop]
    cases hescape : ps.any Piece.isEscape with
    | true => exact ⟨rfl, rfl⟩
    | false => simpa [hescape] using hsame hescape
  next hcontains =>
    exact hsame (h.any_isEscape (t := ofChars cs) (i := 0) rfl
      (escapeAt?_of_contains (by simpa using hcontains)))

/-- The code units of the translated text. -/
theorem units_translate {cs : List Char} {ps : List Piece} (h : Divided [] cs ps) :
    (translate (ofChars cs)).text.units = mend (ps.flatMap Piece.units) := by
  rw [(translate_divided h).1, units_eq, chars_ofChars, units_rendered fun s u => h.unit_lt]

/-- A source that is made of characters is cut into pieces in exactly one way. Its translation has
the code units of the pieces, except that the replacement character stands for half a surrogate pair
without its other half. Where something was replaced, the table of offsets has the place in the
source of every byte, and the end of the source for the end of the text. -/
theorem escapes_translated (t : Text) (ht : t.isUtf8 = true) :
    ∃ ps, Divided [] (t.chars.map Prod.snd) ps ∧
      (∀ qs, Divided [] (t.chars.map Prod.snd) qs → qs = ps) ∧
      (translate t).text.units = mend (ps.flatMap Piece.units) ∧
      (translate t).text = ofChars ((rendered ps).map (·.char)) ∧
      ((translate t).offsets = none ↔ ∀ p ∈ ps, p.isEscape = false) ∧
      ((translate t).offsets = none → (translate t).text = t) ∧
      ∀ offsets, (translate t).offsets = some offsets →
        offsets.toList = origins 0 (rendered ps) ++ [t.size] ∧
        offsets.toList.Pairwise (· ≤ ·) ∧ offsets.size = (translate t).text.size + 1 := by
  obtain ⟨cs, rfl⟩ := isUtf8_iff.mp ht
  rw [chars_ofChars]
  obtain ⟨ps, hps⟩ := exists_divided [] cs
  obtain ⟨htext, hoffsets⟩ := translate_divided hps
  refine ⟨ps, hps, fun qs hqs => hqs.unique hps, units_translate hps, htext, ?_, ?_, ?_⟩
  · have hany : ps.any Piece.isEscape = false ↔ ∀ p ∈ ps, p.isEscape = false := by
      simp [List.any_eq_false]
    rw [hoffsets, ← hany]
    cases ps.any Piece.isEscape <;> simp
  · intro hnone
    rw [hoffsets] at hnone
    have hplain : ps.any Piece.isEscape = false := by
      by_contra hescape
      rw [if_pos (by simpa using hescape)] at hnone
      cases hnone
    rw [htext, hps.chars_plain hplain]
  · intro offsets h
    rw [hoffsets, Option.ite_none_right_eq_some] at h
    obtain rfl := Option.some.inj h.2
    have hbounds := origins_bounds (source_rendered ps) 0
    rw [hps.sources, Nat.zero_add] at hbounds
    refine ⟨by simp, ?_, ?_⟩
    · rw [Array.toList_push, List.pairwise_append]
      refine ⟨origins_sorted (source_rendered ps) 0, List.pairwise_singleton _ _, ?_⟩
      intro o ho o' ho'
      obtain rfl := List.mem_singleton.mp ho'
      exact (hbounds o ho).2
    · rw [Array.size_push, List.size_toArray, length_origins, htext]

/-- Two escapes that denote a surrogate pair. -/
def grin : List Char := ['\\', 'u', 'u', 'D', '8', '3', 'd', '\\', 'u', 'D', 'E', '0', '0']

/-- They become one character, whose four bytes all come from the first backslash. -/
theorem escapes_translated_pair : (translate (ofChars grin)).text.units = [0xD83D, 0xDE00] ∧
    (translate (ofChars grin)).offsets = some #[0, 0, 0, 0, 13] := by
  obtain ⟨ps, hps, hunique, hunits, htext, hnone, -, hsome⟩ :=
    escapes_translated (ofChars grin) (isUtf8_iff.mpr ⟨grin, rfl⟩)
  have hhigh : Denotes ['\\', 'u', 'u', 'D', '8', '3', 'd'] 0xD83D :=
    .mk 1 (a := ('D', 13)) (b := ('8', 8)) (c := ('3', 3)) (d := ('d', 13)) (by decide) (by decide)
      (by decide) (by decide)
  have hlow : Denotes ['\\', 'u', 'D', 'E', '0', '0'] 0xDE00 :=
    .mk 0 (a := ('D', 13)) (b := ('E', 14)) (c := ('0', 0)) (d := ('0', 0)) (by decide) (by decide)
      (by decide) (by decide)
  obtain rfl := hunique [.escape _ 0xD83D, .escape _ 0xDE00] (by
    rw [chars_ofChars]
    exact .escape rfl hhigh (.escape (by rw [hhigh.trailing]) hlow (.nil _)))
  refine ⟨hunits, ?_⟩
  cases hoffsets : (translate (ofChars grin)).offsets with
  | none => exact absurd (hnone.mp hoffsets _ List.mem_cons_self) (by decide)
  | some offsets =>
    have htable := (hsome offsets hoffsets).1
    exact congrArg some (Array.toList_inj.mp (htable.trans (by decide)))

/-- Half a surrogate pair that is written as an escape. -/
def lonely : List Char := ['\\', 'u', 'd', '8', '0', '0']

/-- Its code unit is lost. -/
theorem lonely_replaced : Divided [] lonely [.escape lonely 0xD800] ∧
    (translate (ofChars lonely)).text.units = [0xFFFD] ∧
    (translate (ofChars lonely)).text.units ≠ [.escape lonely 0xD800].flatMap Piece.units := by
  have hdenotes : Denotes lonely 0xD800 :=
    .mk 0 (a := ('d', 13)) (b := ('8', 8)) (c := ('0', 0)) (d := ('0', 0)) (by decide) (by decide)
      (by decide) (by decide)
  have hdivided : Divided [] lonely [.escape lonely 0xD800] := .escape rfl hdenotes (.nil _)
  rw [units_translate hdivided]
  exact ⟨hdivided, by decide, by decide⟩

end Javelin.Source
