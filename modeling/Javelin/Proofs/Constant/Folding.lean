import Mathlib.Data.Option.Basic
import Mathlib.Tactic.Common
import Javelin.Proofs.Constant.Arithmetic

/-!
# The types of folded constants

An operator on constants gives a constant of the type that it computes with, or a truth value.

1. Casts.
2. Prefix operators.
3. Binary operators.
-/

namespace Javelin.Constant

theorem castTo_type {c k : Constant} {t : BasicType} (h : c.castTo t = some k) :
    k.type = t := by
  unfold castTo at h
  split at h
  next heq =>
    cases h
    exact eq_of_beq heq
  next =>
    split at h
    · cases h
    next ht =>
      have hfloating : ∀ f n, (castFloating f n t).type = t := by
        intro f n
        cases t <;> first | rfl | exact absurd rfl ht
      have hinteger : ∀ n, (castInteger n t).type = t := by
        intro n
        cases t <;> first | rfl | exact absurd rfl ht
      split at h
      · cases h
        exact hfloating _ _
      · cases h
        exact hfloating _ _
      · obtain ⟨n, -, rfl⟩ := Option.map_eq_some_iff.1 h
        exact hinteger n

theorem value?_truth {k : Constant} {b : Bool} (h : k.value? = some (.truth b)) :
    k = .boolean b := by
  cases k <;> simp_all [value?, integer?]

theorem castTo_boolean {c k : Constant} (h : c.castTo .boolean = some k) : k = c := by
  unfold castTo at h
  split at h <;> cases h
  rfl

/-- What fits a type, for constants other than those of the largest integral type. -/
theorem fitsIn_eq {c : Constant} {n : Int} (hc : c.integer? = some n) (hlong : c.type ≠ .long)
    (t : BasicType) : c.fitsIn t =
      if t = .byte then -128 ≤ n && n ≤ 127
      else if t = .short then -32768 ≤ n && n ≤ 32767
      else if t = .char then 0 ≤ n && n ≤ 65535
      else t == .int := by
  cases c <;> cases hc <;> first | exact absurd rfl hlong | (cases t <;> rfl)

theorem not_fitsIn_of_long {c : Constant} (hlong : c.type = .long) (t : BasicType) :
    c.fitsIn t = false := by
  obtain ⟨v, rfl⟩ := eq_long hlong
  rfl

theorem bounds_of_decide {a b n : Int} (h : (decide (a ≤ n) && decide (n ≤ b)) = true) :
    a ≤ n ∧ n ≤ b := by
  simpa using h

/-- A number that fits a type is not changed by a conversion to it. -/
theorem convert_of_fitsIn {k : Constant} {n : Int} {t : BasicType} (hk : k.integer? = some n)
    (h : k.fitsIn t) : Value.convert n t = n := by
  have hlong : k.type ≠ .long := fun hlong => by simp [not_fitsIn_of_long hlong] at h
  rw [fitsIn_eq hk hlong] at h
  split at h
  · subst t
    obtain ⟨hl, hu⟩ := bounds_of_decide h
    exact wrap_of_bounds (m := 7) (by omega) (by omega)
  split at h
  · subst t
    obtain ⟨hl, hu⟩ := bounds_of_decide h
    exact wrap_of_bounds (m := 15) (by omega) (by omega)
  split at h
  · subst t
    obtain ⟨hl, hu⟩ := bounds_of_decide h
    exact Int.emod_eq_of_lt hl (by omega)
  · obtain rfl := eq_of_beq h
    have hb := int_bounds hk hlong
    exact wrap_of_bounds hb.1 hb.2

theorem negate?_type {c k : Constant} (h : negate? c = some k) : k.type = c.type := by
  cases c <;> cases h <;> rfl

theorem complement?_type {c k : Constant} (h : complement? c = some k) : k.type = c.type := by
  cases c <;> cases h <;> rfl

theorem unary_type {op : Operator} {c k : Constant} {t : BasicType} (hop : op ≠ .not)
    (h : unary op c t = some k) : k.type = t := by
  have hne : (op == .not) = false := beq_eq_false_iff_ne.2 hop
  unfold unary at h
  rw [hne] at h
  cases hv : c.castTo t with
  | none => simp [hv] at h
  | some v =>
    have ht := castTo_type hv
    cases op <;> simp only [hv, reduceCtorEq, Option.some.injEq, Bool.false_eq_true, if_false] at h
    case pos => exact h ▸ ht
    case neg => exact (negate?_type h).trans ht
    case bitNot => exact (complement?_type h).trans ht

theorem foldOrder_type {op : Operator} {o : Option Ordering} {k : Constant} (t : BasicType)
    (h : foldOrder op o = some k) : k.type = resultType op t := by
  cases op <;> cases h <;> rfl

theorem foldFloating_type {f : Number.Format} {g : Nat → Constant} {op : Operator} {l r : Nat}
    {k : Constant} {t : BasicType} (hg : ∀ n, (g n).type = t)
    (h : foldFloating f g op l r = some k) : k.type = resultType op t := by
  unfold foldFloating at h
  split at h
  case h_6 => exact foldOrder_type t h
  all_goals
    cases h
    exact hg _

theorem foldShift_type {op : Operator} {l r k : Constant} {t : BasicType}
    (h : foldShift op l r t = some k) : k.type = t := by
  unfold foldShift at h
  split at h
  · cases h
  · split at h
    · exact (shiftInt_number h).2
    · exact (shiftLong_number h).2
    · cases h

/-- The type of what an operator on numbers gives. -/
theorem binary_type {op : Operator} {l r k : Constant} {t : BasicType} (ht : t.isNumeric)
    (h : binary op l r t = some k) : k.type = resultType op t := by
  unfold binary at h
  split at h
  · cases ht
  · cases ht
  split at h
  next hop =>
    have hresult : resultType op t = t := by
      cases op <;> first | rfl | cases hop
    rw [hresult]
    exact foldShift_type h
  next =>
    split at h
    next a b ha hb =>
      have hint : t = .int := (castTo_type ha).symm
      subst hint
      exact (foldInt_number h).2
    next a b ha hb =>
      have hlong : t = .long := (castTo_type ha).symm
      subst hlong
      exact (foldLong_number h).2
    next a b ha hb =>
      have hfloat : t = .float := (castTo_type ha).symm
      subst hfloat
      exact foldFloating_type (fun _ => rfl) h
    next a b ha hb =>
      have hdouble : t = .double := (castTo_type ha).symm
      subst hdouble
      exact foldFloating_type (fun _ => rfl) h
    next => cases h

/-- What an operator gives for truth values. -/
theorem binary_boolean {op : Operator} {l r k : Constant} (h : binary op l r .boolean = some k) :
    ∃ a b, l = .boolean a ∧ r = .boolean b ∧ k.value? = Value.ofTruths op a b ∧
      k.type = .boolean := by
  cases l <;> cases r <;> first | cases h | exact ⟨_, _, rfl, rfl, binary_truth h⟩

/-- A constant of a plain type stands for a value. -/
theorem value?_isSome {k : Constant} (h : k.type = .boolean ∨ k.type.isIntegral) :
    ∃ v, k.value? = some v := by
  rcases h with h | h
  · cases k <;> first | exact ⟨_, rfl⟩ | cases h
  · obtain ⟨n, hn⟩ := integer?_isSome h
    exact ⟨.number n, value?_of_integer hn⟩

theorem castTo_self {c k : Constant} (h : c.castTo c.type = some k) : k = c := by
  unfold castTo at h
  rw [if_pos (beq_self_eq_true _)] at h
  cases h
  rfl

end Javelin.Constant

/-!
# Folding whole numbers

An operator on whole numbers gives the constant of the number that it has in the language, or no
constant where it has none: for the divisor zero, and for the operators that are not about numbers.

1. The range of a type (`Holds`).
2. Casts (`castTo_number`), and the numbers that fit a type (`fitsIn_iff`).
3. When an operator gives no constant (`binary_eq_none`).
4. All operators (`integers_folded`).
-/

namespace Javelin

/-! ## The range of a type -/

namespace BasicType

/-- The least number of an integral type. -/
def least : BasicType → Int
  | .byte => -2 ^ (7 : Nat)
  | .short => -2 ^ (15 : Nat)
  | .int => -2 ^ (31 : Nat)
  | .long => -2 ^ (63 : Nat)
  | _ => 0

/-- One more than the greatest number of an integral type. -/
def bound : BasicType → Int
  | .byte => 2 ^ (7 : Nat)
  | .short => 2 ^ (15 : Nat)
  | .char => 2 ^ (16 : Nat)
  | .int => 2 ^ (31 : Nat)
  | .long => 2 ^ (63 : Nat)
  | _ => 0

/-- Whether a value is one of a type. -/
def Holds (t : BasicType) : Value → Prop
  | .truth _ => t = .boolean
  | .number n => t.least ≤ n ∧ n < t.bound

/-- The type that an operator computes with: a shift promotes its operands one by one. -/
def operated (op : Operator) (s t : BasicType) : BasicType :=
  if op.isShift then s.promoted else s.promotedWith t

end BasicType

namespace Operator

/-- The binary operators on numbers. -/
def takesNumbers : Operator → Bool
  | add | sub | mul | div | rem | shl | shr | ushr | and | or | xor => true
  | op => op.isComparison

end Operator

namespace Constant

variable {op : Operator} {c k l r : Constant} {n a b : Int} {s t : BasicType} {v : Value}

/-- A constant of a type stands for a value, which the type holds. -/
structure Denotes (t : BasicType) (k : Constant) (v : Value) : Prop where
  type : k.type = t
  value : k.value? = some v
  holds : t.Holds v

theorem holds_integer (h : c.integer? = some n) : c.type.least ≤ n ∧ n < c.type.bound := by
  cases c with
  | byte v => cases h; exact ⟨v.le_toInt, v.toInt_lt⟩
  | short v => cases h; exact ⟨v.le_toInt, v.toInt_lt⟩
  | int v => cases h; exact ⟨v.le_toInt, v.toInt_lt⟩
  | long v => cases h; exact ⟨v.le_toInt, v.toInt_lt⟩
  | char u =>
    cases h
    have hlt : (u.toNat : Int) < 2 ^ (16 : Nat) := by exact_mod_cast u.toNat_lt
    exact ⟨Int.natCast_nonneg _, hlt⟩
  | boolean _ | float _ | double _ | string _ => cases h

theorem denotes (h : k.value? = some v) : Denotes k.type k v := by
  refine ⟨rfl, h, ?_⟩
  cases v with
  | truth b => exact congrArg type (value?_truth h)
  | number n => exact holds_integer (integer?_of_value h)

/-- A result with the value and type that are due, or none where none is due. -/
theorem rel_denotes {k? : Option Constant} {v? : Option Value}
    (hsome : ∀ k, k? = some k → k.value? = v? ∧ k.type = t) (hnone : k? = none ↔ v? = none) :
    Option.Rel (Denotes t) k? v? := by
  cases k? with
  | none =>
    rw [hnone.mp rfl]
    exact .none
  | some k =>
    obtain ⟨hvalue, rfl⟩ := hsome k rfl
    obtain ⟨v, rfl⟩ := Option.ne_none_iff_exists'.mp (mt hnone.mpr nofun)
    exact .some (denotes hvalue)

/-! ## Casts -/

theorem exists_castTo (hc : c.integer? = some n) (ht : t.isIntegral = true) :
    ∃ k, c.castTo t = some k := by
  unfold castTo
  split
  · exact ⟨c, rfl⟩
  · have hnumeric : (!t.isNumeric) = false := by simp [BasicType.isNumeric, ht]
    rw [hnumeric]
    cases c with
    | boolean _ | float _ | double _ | string _ => cases hc
    | _ => exact ⟨_, rfl⟩

theorem castTo_number (hc : c.integer? = some n) (ht : t.isIntegral = true) :
    ∃ k, c.castTo t = some k ∧ Denotes t k (.number (Value.convert n t)) := by
  obtain ⟨k, hk⟩ := exists_castTo hc ht
  obtain ⟨hn, rfl⟩ := castTo_integral ht hc hk
  exact ⟨k, hk, denotes (value?_of_integer hn)⟩

theorem castTo_int (hc : c.integer? = some n) :
    ∃ v : Int32, c.castTo .int = some (.int v) ∧ v.toInt = Value.wrap 32 n := by
  obtain ⟨k, hk, hdenotes⟩ := castTo_number hc (t := .int) rfl
  obtain ⟨v, rfl⟩ := eq_int hdenotes.type
  exact ⟨v, hk, Option.some.inj (integer?_of_value hdenotes.value)⟩

theorem wrap_eq_iff (m : Nat) : Value.wrap (m + 1) n = n ↔ -2 ^ m ≤ n ∧ n < 2 ^ m := by
  refine ⟨fun h => ?_, fun h => wrap_of_bounds h.1 h.2⟩
  have hp : ((2 ^ (m + 1) : Nat) : Int) = 2 * 2 ^ m := by
    rw [Int.natCast_pow, Int.pow_succ]
    exact Int.mul_comm _ _
  have hle := Int.le_bmod (x := n) (Nat.two_pow_pos (m + 1))
  have hlt := Int.bmod_lt (x := n) (Nat.two_pow_pos (m + 1))
  unfold Value.wrap at h
  omega

/-- A conversion changes a number unless the type holds it. -/
theorem convert_eq_iff (ht : t.isIntegral = true) :
    Value.convert n t = n ↔ t.Holds (.number n) := by
  cases t with
  | byte => exact wrap_eq_iff 7
  | short => exact wrap_eq_iff 15
  | int => exact wrap_eq_iff 31
  | long => exact wrap_eq_iff 63
  | char =>
    refine ⟨fun h => ?_, fun h => Int.emod_eq_of_lt h.1 h.2⟩
    rw [← h]
    exact ⟨Int.emod_nonneg _ (by decide), Int.emod_lt_of_pos _ (by decide)⟩
  | undefined | boolean | float | double | string | null | void | object => cases ht

theorem fitsIn_eq_true (hc : c.integer? = some n) (ht : t.isIntegral = true) :
    c.fitsIn t = true ↔ c.type ≠ .long ∧ t ≠ .long ∧ t.Holds (.number n) := by
  by_cases hlong : c.type = .long
  · simp [not_fitsIn_of_long hlong, hlong]
  rw [fitsIn_eq hc hlong]
  have hint := int_bounds hc hlong
  cases t with
  | byte | short | char | int | long =>
    simp [BasicType.Holds, BasicType.least, BasicType.bound, hlong]
    try omega
  | _ => cases ht

/-- A number fits a type narrower than `long` if it comes through a cast unchanged. -/
theorem fitsIn_iff (hc : c.integer? = some n) (ht : t.isIntegral = true) :
    c.fitsIn t = true ↔ c.type ≠ .long ∧ t ≠ .long ∧
      (c.castTo t).bind (·.castTo .int) = c.castTo .int := by
  rw [fitsIn_eq_true hc ht]
  refine and_congr_right fun hlong => and_congr_right fun htlong => ?_
  obtain ⟨k, hk, hdenotes⟩ := castTo_number hc ht
  obtain ⟨v, hv, hvn⟩ := castTo_int hc
  obtain ⟨w, hw, hwn⟩ := castTo_int (integer?_of_value hdenotes.value)
  rw [← convert_eq_iff ht, hk, Option.bind_some, hv, hw, Option.some.injEq, Constant.int.injEq,
    ← Int32.toInt_inj, hvn, hwn]
  have hint : Value.wrap 32 n = n := (wrap_eq_iff 31).mpr (int_bounds hc hlong)
  have hwrap : Value.wrap 32 (Value.convert n t) = Value.convert n t := by
    have htype : k.type ≠ .long := hdenotes.type.symm ▸ htlong
    exact (wrap_eq_iff 31).mpr (int_bounds (integer?_of_value hdenotes.value) htype)
  rw [hint, hwrap]

/-! ## No constant -/

theorem ofNumbers_eq_none (bits : Nat) : Value.ofNumbers bits op a b = none ↔
    op.takesNumbers = false ∨ (op = .div ∨ op = .rem) ∧ b = 0 := by
  cases op with
  | div | rem => simp [Value.ofNumbers, Operator.takesNumbers]
  | _ =>
    first
    | exact iff_of_true rfl (.inl rfl)
    | exact iff_of_false (Option.some_ne_none _) (by rintro (h | ⟨h | h, -⟩) <;> cases h)

theorem foldInt_eq_none {a b : Int32} (hop : op.isShift = false) :
    foldInt op a b = none ↔ Value.ofNumbers 32 op a.toInt b.toInt = none := by
  have hzero : b = 0 ↔ b.toInt = 0 := Int32.toInt_inj.symm
  cases op with
  | div | rem => simp [foldInt, Value.ofNumbers, hzero]
  | shl | shr | ushr => cases hop
  | _ =>
    first
    | exact iff_of_true rfl rfl
    | exact iff_of_false (Option.some_ne_none _) (Option.some_ne_none _)

theorem foldLong_eq_none {a b : Int64} (hop : op.isShift = false) :
    foldLong op a b = none ↔ Value.ofNumbers 64 op a.toInt b.toInt = none := by
  have hzero : b = 0 ↔ b.toInt = 0 := Int64.toInt_inj.symm
  cases op with
  | div | rem => simp [foldLong, Value.ofNumbers, hzero]
  | shl | shr | ushr => cases hop
  | _ =>
    first
    | exact iff_of_true rfl rfl
    | exact iff_of_false (Option.some_ne_none _) (Option.some_ne_none _)

theorem castTo_widened (ht : Widens c.type t) (hc : c.integer? = some n) :
    (∃ v : Int32, t = .int ∧ c.castTo t = some (.int v) ∧ v.toInt = n) ∨
      ∃ v : Int64, t = .long ∧ c.castTo t = some (.long v) ∧ v.toInt = n := by
  obtain ⟨k, hk⟩ := exists_castTo hc ht.isIntegral
  obtain ⟨hn, hkt⟩ := castTo_widens ht hc hk
  rcases ht with rfl | ⟨rfl, -⟩
  · obtain ⟨v, rfl⟩ := eq_long hkt
    exact .inr ⟨v, rfl, hk, Option.some.inj hn⟩
  · obtain ⟨v, rfl⟩ := eq_int hkt
    exact .inl ⟨v, rfl, hk, Option.some.inj hn⟩

theorem binary_eq_none (hop : op.isShift = false) (hl : Widens l.type t) (hr : Widens r.type t)
    (ha : l.integer? = some a) (hb : r.integer? = some b) :
    binary op l r t = none ↔ Value.ofNumbers (width t) op a b = none := by
  rcases castTo_widened hl ha with ⟨u, rfl, hu, rfl⟩ | ⟨u, rfl, hu, rfl⟩
  · obtain ⟨v, -, hv, rfl⟩ | ⟨v, h, -⟩ := castTo_widened hr hb
    · refine .trans ?_ (foldInt_eq_none hop)
      simp [binary, hop, hu, hv]
    · cases h
  · obtain ⟨v, h, -⟩ | ⟨v, -, hv, rfl⟩ := castTo_widened hr hb
    · cases h
    · refine .trans ?_ (foldLong_eq_none hop)
      simp [binary, hop, hu, hv]

theorem shifted_ne_none (hop : op.isShift = true) (bits : Nat) :
    Value.ofNumbers bits op a b ≠ none := by
  cases op <;> cases hop <;> exact Option.some_ne_none _

theorem shift_ne_none (hop : op.isShift = true) (hl : Widens l.type t) (ha : l.integer? = some a)
    (hb : r.integer? = some b) : binary op l r t ≠ none := by
  rcases castTo_widened hl ha with ⟨u, rfl, hu, rfl⟩ | ⟨u, rfl, hu, rfl⟩ <;>
    cases op <;> cases hop <;> simp [binary, foldShift, hu, hb, shiftInt, shiftLong, Operator.isShift]

theorem unary_eq_none (ht : Widens c.type t) (hc : c.integer? = some n) :
    unary op c t = none ↔ Value.unary (width t) op (.number n) = none := by
  have hnot : op = .not → unary op c t = none := by
    rintro rfl
    cases c <;> first | rfl | cases hc
  rcases castTo_widened ht hc with ⟨u, rfl, hu, rfl⟩ | ⟨u, rfl, hu, rfl⟩ <;>
    cases op with
    | not => exact iff_of_true (hnot rfl) rfl
    | neg | pos | bitNot =>
      exact iff_of_false (by simp [unary, hu, negate?, complement?]) (Option.some_ne_none _)
    | _ => exact iff_of_true (by simp only [unary, hu]; rfl) rfl

/-! ## All operators -/

theorem promoted_widens (hs : s.isIntegral = true) : Widens s s.promoted := by
  cases s <;> simp_all [Widens, BasicType.promoted, BasicType.isIntegral]

theorem promotedWith_widens (hs : s.isIntegral = true) (ht : t.isIntegral = true) :
    Widens s (s.promotedWith t) ∧ Widens t (s.promotedWith t) := by
  cases s <;> cases hs <;> cases t <;> cases ht <;>
    simp [Widens, BasicType.promotedWith, BasicType.isNumeric, BasicType.isIntegral]

theorem operated_widens (hs : s.isIntegral = true) (ht : t.isIntegral = true) :
    Widens s (BasicType.operated op s t) := by
  unfold BasicType.operated
  split
  · exact promoted_widens hs
  · exact (promotedWith_widens hs ht).1

/-- A binary operator on whole numbers, at the type that it computes with. -/
theorem binary_denotes (op : Operator) (ha : l.integer? = some a) (hb : r.integer? = some b) :
    let t := BasicType.operated op l.type r.type
    Option.Rel (Denotes (resultType op t)) (binary op l r t) (Value.ofNumbers (width t) op a b) := by
  intro t
  have hl := isIntegral_of_integer? ha
  have hr := isIntegral_of_integer? hb
  have hlt : Widens l.type t := operated_widens hl hr
  cases hop : op.isShift with
  | true =>
    have hresult : resultType op t = t := by
      cases op <;> first | rfl | cases hop
    rw [hresult]
    exact rel_denotes (fun k hk => binary_shift hop hlt ha hb hk)
      (iff_of_false (shift_ne_none hop hlt ha hb) (shifted_ne_none hop _))
  | false =>
    have ht : t = l.type.promotedWith r.type := by simp [t, BasicType.operated, hop]
    have hrt : Widens r.type t := ht ▸ (promotedWith_widens hl hr).2
    exact rel_denotes (fun k hk => binary_number hop hlt hrt ha hb hk)
      (binary_eq_none hop hlt hrt ha hb)

/-- A prefix operator on a whole number, at the type that the number is promoted to. -/
theorem unary_denotes (op : Operator) (hc : c.integer? = some n) :
    let t := c.type.promoted
    Option.Rel (Denotes t) (unary op c t) (Value.unary (width t) op (.number n)) := by
  intro t
  have ht : Widens c.type t := promoted_widens (isIntegral_of_integer? hc)
  refine rel_denotes (fun k hk => unary_number ?_ ht hc hk) (unary_eq_none ht hc)
  rintro rfl
  obtain ⟨b, rfl, -⟩ := unary_not hk
  cases hc

theorem isNone_of_rel {α β : Type} {p : α → β → Prop} {x : Option α} {y : Option β}
    (h : Option.Rel p x y) : x = none ↔ y = none := by
  cases h <;> simp

/-- Folding whole numbers is the arithmetic of the language. Operators and casts give the constant
of the number that is due, which its type holds. No operator on numbers is without a constant,
except division by zero; and a number fits another type exactly if it comes through a cast
unchanged, where neither type is `long`. -/
theorem integers_folded (op : Operator) {l r : Constant} {a b : Int} {t : BasicType}
    (ha : l.integer? = some a) (hb : r.integer? = some b) (ht : t.isIntegral = true) :
    let s := BasicType.operated op l.type r.type
    let u := l.type.promoted
    Option.Rel (Denotes (resultType op s)) (binary op l r s) (Value.ofNumbers (width s) op a b) ∧
      (binary op l r s = none ↔ op.takesNumbers = false ∨ (op = .div ∨ op = .rem) ∧ b = 0) ∧
      Option.Rel (Denotes u) (unary op l u) (Value.unary (width u) op (.number a)) ∧
      (∃ k, l.castTo t = some k ∧ Denotes t k (.number (Value.convert a t))) ∧
      (l.fitsIn t = true ↔ l.type ≠ .long ∧ t ≠ .long ∧
        (l.castTo t).bind (·.castTo .int) = l.castTo .int) :=
  have hbinary := binary_denotes op ha hb
  ⟨hbinary, (isNone_of_rel hbinary).trans (ofNumbers_eq_none _), unary_denotes op ha,
    castTo_number ha ht, fitsIn_iff ha ht⟩

/-- The least `int` divided by minus one, and cast to `char`. -/
theorem integers_folded_least :
    Option.Rel (Denotes .int) (binary .div (.int (-2147483648)) (.int (-1)) .int)
        (some (.number (-2147483648))) ∧
      ∃ k, castTo (.int (-2147483648)) .char = some k ∧ Denotes .char k (.number 0) :=
  have h := integers_folded .div (l := .int (-2147483648)) (r := .int (-1)) (t := .char) rfl rfl rfl
  ⟨h.1, h.2.2.2.1⟩

/-- An `int` comes through a cast to `long` unchanged, and does not fit it; and the conditional
operators are none on numbers. -/
theorem five_not_long : fitsIn (.int 5) .long = false ∧
    (castTo (.int 5) .long).bind (·.castTo .int) = castTo (.int 5) .int ∧
    binary .condAnd (.int 5) (.int 6) .int = none := by
  decide

end Constant

end Javelin
