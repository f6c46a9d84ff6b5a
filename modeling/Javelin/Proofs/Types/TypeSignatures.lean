import Javelin.Proofs.ClassFile.Signatures
import Javelin.Proofs.Types.Reaching

/-!
# The signatures that are written for types

`World.Signed` is the tree of the signature of a type: that of its erasure, for a class, a primitive
or a raw type, and else that of its parts. A class file holds the signature of a type that mentions
type variables or arguments, and the descriptor of any other type.

1. `World.Signed`.
2. `World.Plain`, the types whose descriptor says everything that is written about them.
3. `World.Signed.written` and `World.Signed.stored`: the text that is written for a type spells the
   tree of its signature.
-/

namespace Javelin

open Run
open Signature (Spells Piece TypeSig ClassSig ArgSig IsIdentifier IsClassName)

namespace Signature

/-- An array type of some dimensions. -/
def TypeSig.arrays (a : TypeSig) : Nat → TypeSig
  | 0 => a
  | n + 1 => .array (a.arrays n)

theorem Spells.arrays {a : TypeSig} {s : Text} (h : Spells (.type a) s) (n : Nat) :
    Spells (.type (a.arrays n)) (Text.replicate n '[' ++ s) := by
  induction n with
  | zero =>
    rw [show Text.replicate 0 '[' ++ s = s from Text.empty_append s]
    exact h
  | succ n ih =>
    have hs : Text.replicate (n + 1) '[' ++ s = "[" ++ (Text.replicate n '[' ++ s) := by
      apply Text.ext_toList
      simp only [Text.toList_append]
      rfl
    rw [hs]
    exact .array ih

end Signature

/-- What a class file holds for a type: its signature, or the descriptor if that says everything. -/
def Lookup.storedText [Answers] (t : TypeId) : Lookup Text := do
  let s ← fieldSignature t
  if s.isEmpty then descriptor t else return s

namespace World

variable {w v : World} {vars : List TypeId} {t e g x : TypeId} {d : Declared} {a : TypeSig}
  {s : Text} {n : Nat}

/-! ## The tree of a signature -/

/-- A declared type that is found under its name in class files. -/
structure Knows (w : World) (g : TypeId) (d : Declared) : Prop where
  is : w.Is g (.declared d)
  found : w.byBinaryName[d.binaryName]? = some g
  named : IsClassName d.binaryName

theorem Knows.mono (hw : w.Reaches v) (h : w.Knows g d) : v.Knows g d :=
  ⟨hw.is_of h.is rfl, hw.found h.found, h.named⟩

/-- The signature of a type of the source, where the given type variables are in scope, the
innermost first. The class of a member type of a parameterized type is named by the outer type and a
simple name. -/
inductive Signed (w : World) (vars : List TypeId) : TypeId → ArgSig → Prop
  | base {b : BasicType} (hb : b.isPrimitive) (h : w.Is (Lookup.base b) (.base b)) :
    Signed w vars (Lookup.base b) (.exact (.primitive b))
  | declared {t : TypeId} {d : Declared} (h : w.Knows t d) :
    Signed w vars t (.exact (.cls (.mk d.binaryName [] none)))
  | raw {t g : TypeId} {d : Declared} (h : w.Is t (.composite (.raw g))) (hg : w.Knows g d) :
    Signed w vars t (.exact (.cls (.mk d.binaryName [] none)))
  | variable {t : TypeId} {x : Variable} {front back : List TypeId} (h : w.Is t (.variable x))
    (hname : IsIdentifier x.name) (hvars : vars = front ++ t :: back)
    (hfirst : ∀ u ∈ front, u.index < w.types.size ∧ (w.row u).shape.name ≠ x.name) :
    Signed w vars t (.exact (.variable x.name))
  | array {t e : TypeId} {n : Nat} {a : TypeSig} (h : w.Is t (.composite (.array e n)))
    (hn : n ≠ 0) (he : Signed w vars e (.exact a)) : Signed w vars t (.exact (a.arrays n))
  | unbounded {t : TypeId} (h : w.Is t (.composite (.wildcard .none .unbounded))) :
    Signed w vars t .unbounded
  | upper {t b : TypeId} {a : TypeSig} (h : w.Is t (.composite (.wildcard b .upper)))
    (hb : Signed w vars b (.exact a)) : Signed w vars t (.upper a)
  | lower {t b : TypeId} {a : TypeSig} (h : w.Is t (.composite (.wildcard b .lower)))
    (hb : Signed w vars b (.exact a)) : Signed w vars t (.lower a)
  | parameterized {t g : TypeId} {as : List TypeId} {isDegraded : Bool} {d : Declared}
    {f : TypeId → ArgSig} (h : w.Is t (.composite (.parameterized g as .none isDegraded)))
    (hg : w.Knows g d) (hne : as ≠ []) (has : ∀ x ∈ as, Signed w vars x (f x)) :
    Signed w vars t (.exact (.cls (.mk d.binaryName (as.map f) none)))
  | member {t g o : TypeId} {as : List TypeId} {isDegraded : Bool} {d : Declared}
    {f : TypeId → ArgSig} {c : ClassSig}
    (h : w.Is t (.composite (.parameterized g as o isDegraded))) (hg : w.Knows g d)
    (hname : IsIdentifier d.name) (ho : Signed w vars o (.exact (.cls c)))
    (houter : (w.row o).shape.isParameterized = true) (has : ∀ x ∈ as, Signed w vars x (f x)) :
    Signed w vars t (.exact (.cls (.mk (c.name ++ "$" ++ d.name) (as.map f) (some c))))

/-- A type with a signature is in use, and is no placeholder. -/
theorem Signed.is {a : ArgSig} (h : w.Signed vars t a) :
    ∃ s, w.Is t s ∧ s.isAbsent = false ∧ s.isWaiting = false := by
  cases h with
  | base _ h | raw h | «variable» h | array h | unbounded h | upper h | lower h | parameterized h
  | member h => exact ⟨_, h, rfl, rfl⟩
  | declared h => exact ⟨_, h.is, rfl, rfl⟩

/-- The class of a parameterized type has arguments or is enclosed. -/
theorem Signed.kept {c : ClassSig} (h : w.Signed vars t (.exact (.cls c)))
    (ht : (w.row t).shape.isParameterized = true) : (c.args.isEmpty && c.outer.isNone) = false := by
  generalize ha : ArgSig.exact (.cls c) = a at h
  cases h with
  | declared h =>
    rw [h.is.shape] at ht
    cases ht
  | raw h =>
    rw [h.shape] at ht
    cases ht
  | array h =>
    rw [h.shape] at ht
    cases ht
  | @parameterized _ _ as _ _ f _ _ hne =>
    cases ha
    cases as with
    | nil => exact absurd rfl hne
    | cons x as => rfl
  | member =>
    cases ha
    exact Bool.and_false _
  | _ => cases ha

/-! ## Types without a signature -/

/-- The descriptor of a class is a signature. -/
theorem spells_class {name : Text} (h : IsClassName name) :
    Spells (.type (.cls (.mk name [] none))) ("L" ++ name ++ ";") := by
  have hc := Spells.cls (.top h .bare)
  rwa [Text.append_empty] at hc

/-- A type that its descriptor is written for, its erasure and the descriptor. -/
inductive Plain (w : World) : TypeId → TypeId → Text → Prop
  | base {b : BasicType} {letter : UInt8} (h : w.Is (Lookup.base b) (.base b))
    (hb : b.letter? = some letter) : Plain w (Lookup.base b) (Lookup.base b) (.singleton letter)
  | declared {t : TypeId} {d : Declared} (h : w.Is t (.declared d)) :
    Plain w t t ("L" ++ d.binaryName ++ ";")
  | raw {t g : TypeId} {d : Declared} (h : w.Is t (.composite (.raw g)))
    (hg : w.Is g (.declared d)) : Plain w t g ("L" ++ d.binaryName ++ ";")

theorem Plain.erasure (h : w.Plain t e s) (n : Nat) :
    answer (n + 1) (.erasure t) w = .ok e w := by
  let _ : Answers := ⟨answer n⟩
  change Lookup.erasureRule t w = .ok e w
  unfold Lookup.erasureRule
  cases h with
  | base h =>
    rw [bind_run (h.view rfl)]
    rfl
  | declared h =>
    rw [bind_run (h.view rfl)]
    rfl
  | raw h hg =>
    rw [bind_run (h.view rfl)]
    exact hg.resolve rfl

/-- The erasure is a type that its descriptor is written for. -/
theorem Plain.erased (h : w.Plain t e s) : w.Plain e e s := by
  cases h with
  | base h hb => exact .base h hb
  | declared h => exact .declared h
  | raw _ hg => exact .declared hg

theorem Plain.is (h : w.Plain t e s) :
    ∃ r, w.Is e r ∧ r.isAbsent = false ∧ r.isArray = false := by
  cases h with
  | base h => exact ⟨_, h, rfl, rfl⟩
  | declared h | raw _ h => exact ⟨_, h, rfl, rfl⟩

theorem Plain.reaches (h : w.Plain t e s) (hv : w.Reaches v) : v.Plain t e s := by
  cases h with
  | base h hb => exact .base (hv.is_of h rfl) hb
  | declared h => exact .declared (hv.is_of h rfl)
  | raw h hg => exact .raw (hv.is_of h rfl) (hv.is_of hg rfl)

theorem Plain.descriptorIn (h : w.Plain t e s) (n k : Nat) :
    @Lookup.descriptorIn ⟨answer (n + 1)⟩ (k + 1) t w = .ok s w := by
  let _ : Answers := ⟨answer (n + 1)⟩
  rw [Lookup.descriptorIn, bind_run (show Lookup.erasure t w = .ok e w from h.erasure n)]
  cases h with
  | base h hb =>
    rw [bind_run (h.lookup rfl)]
    simp only [hb]
    rfl
  | declared h | raw _ h =>
    rw [bind_run (h.lookup rfl)]
    rfl

theorem Plain.signature (h : w.Plain t e s) (n : Nat) :
    answer (n + 2) (.signature t) w = .ok s w := by
  let _ : Answers := ⟨answer (n + 1)⟩
  change Lookup.signatureRule t w = .ok s w
  have hdescriptor : Lookup.descriptor t w = .ok s w := by
    unfold Lookup.descriptor
    rw [bind_run (get_run w)]
    exact h.descriptorIn n _
  unfold Lookup.signatureRule
  cases h with
  | base h =>
    rw [bind_run (h.view rfl)]
    exact hdescriptor
  | declared h =>
    rw [bind_run (h.view rfl)]
    exact hdescriptor
  | raw h =>
    rw [bind_run (h.view rfl)]
    exact hdescriptor

theorem Plain.isGenericIn [Answers] (h : w.Plain t e s) (k : Nat) :
    Lookup.isGenericIn k t w = .ok false w := by
  cases k with
  | zero => rfl
  | succ k =>
    rw [Lookup.isGenericIn]
    cases h with
    | base h | declared h | raw h =>
      rw [bind_run (h.lookup rfl)]
      rfl

/-! ## Signatures that are written -/

/-- The signature of a type, given enough steps. -/
def Writes (w : World) (t : TypeId) (s : Text) : Prop :=
  ∃ k, ∀ n ≥ k, answer n (.signature t) w = .ok s w

theorem writes_of_rule {k : Nat}
    (h : ∀ n ≥ k, @Lookup.signatureRule ⟨answer n⟩ t w = .ok s w) : w.Writes t s := by
  refine ⟨k + 1, fun n hn => ?_⟩
  obtain ⟨n, rfl⟩ : ∃ m, n = m + 1 := ⟨n - 1, by omega⟩
  exact h n (by omega)

theorem Plain.writes (h : w.Plain t e s) : w.Writes t s := by
  refine ⟨2, fun n hn => ?_⟩
  obtain ⟨n, rfl⟩ : ∃ m, n = m + 2 := ⟨n - 2, by omega⟩
  exact h.signature n

/-- The signatures of arguments, one after the other. -/
theorem writes_items {as : List TypeId} {f : TypeId → ArgSig}
    (h : ∀ x ∈ as, ∃ s, Spells (.item (f x)) s ∧ w.Writes x s) :
    ∃ ss k, Spells (.items (as.map f)) (Text.concat ss) ∧ (ss.isEmpty = as.isEmpty) ∧
      ∀ n ≥ k, as.mapM (fun u => answer n (.signature u)) w = .ok ss w := by
  induction as with
  | nil => exact ⟨[], 0, .nil, rfl, fun _ _ => rfl⟩
  | cons x as ih =>
    obtain ⟨s, hs, k, hk⟩ := h x List.mem_cons_self
    obtain ⟨ss, l, hss, -, hl⟩ := ih fun y hy => h y (List.mem_cons_of_mem x hy)
    refine ⟨s :: ss, max k l, ?_, rfl, fun n hn => ?_⟩
    · have hconcat : Text.concat (s :: ss) = s ++ Text.concat ss := by
        apply Text.ext_toList
        rw [Text.toList_append, Text.toList_concat, Text.toList_concat, List.flatMap_cons]
      rw [hconcat]
      exact .cons hs hss
    · rw [List.mapM_cons, bind_run (hk n (by omega)), bind_run (hl n (by omega))]
      rfl

/-- Arguments in their brackets. -/
theorem writes_args {as : List TypeId} {f : TypeId → ArgSig}
    (h : ∀ x ∈ as, ∃ s, Spells (.item (f x)) s ∧ w.Writes x s) :
    ∃ ss k, Spells (.args (as.map f))
        (if ss.isEmpty then {} else "<" ++ Text.concat ss ++ ">") ∧
      ∀ n ≥ k, as.mapM (fun u => answer n (.signature u)) w = .ok ss w := by
  obtain ⟨ss, k, hss, hempty, hk⟩ := writes_items h
  refine ⟨ss, k, ?_, hk⟩
  cases as with
  | nil =>
    rw [hempty]
    exact .bare
  | cons x as =>
    rw [hempty]
    exact .angles hss

section

variable [Answers]

theorem signatureRule_variable {x : Variable} (h : w.Is t (.variable x)) :
    Lookup.signatureRule t w = .ok ("T" ++ x.name ++ ";") w := by
  unfold Lookup.signatureRule
  rw [bind_run (h.view rfl)]
  rfl

theorem signatureRule_array (h : w.Is t (.composite (.array e n)))
    (hs : ask (.signature e) w = .ok s w) :
    Lookup.signatureRule t w = .ok (Text.replicate n '[' ++ s) w := by
  unfold Lookup.signatureRule
  rw [bind_run (h.view rfl)]
  exact bind_run hs

theorem signatureRule_unbounded (h : w.Is t (.composite (.wildcard e .unbounded))) :
    Lookup.signatureRule t w = .ok "*" w := by
  unfold Lookup.signatureRule
  rw [bind_run (h.view rfl)]
  rfl

theorem signatureRule_upper (h : w.Is t (.composite (.wildcard e .upper)))
    (hs : ask (.signature e) w = .ok s w) : Lookup.signatureRule t w = .ok ("+" ++ s) w := by
  unfold Lookup.signatureRule
  rw [bind_run (h.view rfl)]
  exact bind_run hs

theorem signatureRule_lower (h : w.Is t (.composite (.wildcard e .lower)))
    (hs : ask (.signature e) w = .ok s w) : Lookup.signatureRule t w = .ok ("-" ++ s) w := by
  unfold Lookup.signatureRule
  rw [bind_run (h.view rfl)]
  exact bind_run hs

end

/-- The text before the arguments of a parameterized type: that of the type that encloses it, if
that is parameterized too, with the simple name of the class, and else the name of the class. -/
def IsFront (o : Shape) (d : Declared) (writes : Text → Prop) (front : Text) : Prop :=
  if o.isParameterized then ∃ s, writes s ∧ front = s.dropEnd ";" ++ "." ++ d.name
  else front = "L" ++ d.binaryName

theorem signatureRule_parameterized [Answers] {o : TypeId} {as : List TypeId} {isDegraded : Bool}
    {r : Shape} {front : Text} {ss : List Text}
    (h : w.Is t (.composite (.parameterized g as o isDegraded))) (hg : w.Is g (.declared d))
    (ho : w.Is o r) (hwaiting : r.isWaiting = false)
    (hfront : IsFront r d (fun s => ask (.signature o) w = .ok s w) front)
    (hargs : as.mapM (fun u => ask (.signature u)) w = .ok ss w) :
    Lookup.signatureRule t w = .ok (front ++
      (if ss.isEmpty then {} else "<" ++ Text.concat ss ++ ">") ++ ";") w := by
  have hparts : Lookup.parts t w = .ok (as, o, isDegraded) w := by
    unfold Lookup.parts
    rw [bind_run (Lookup.entry_run t w), h.shape]
    rfl
  unfold Lookup.signatureRule
  rw [bind_run (h.view rfl)]
  dsimp only
  rw [bind_run (hg.lookup rfl), bind_run hparts]
  dsimp only
  rw [bind_run (ho.lookup hwaiting)]
  unfold IsFront at hfront
  split at hfront
  next hp =>
    obtain ⟨s, hs, rfl⟩ := hfront
    rw [if_pos hp, bind_run hs]
    exact bind_run hargs
  next hp =>
    rw [if_neg hp, hfront]
    exact bind_run hargs

theorem writes_parameterized {o : TypeId} {as : List TypeId} {isDegraded : Bool}
    {f : TypeId → ArgSig} {r : Shape} {front : Text}
    (h : w.Is t (.composite (.parameterized g as o isDegraded))) (hg : w.Is g (.declared d))
    (ho : w.Is o r) (hwaiting : r.isWaiting = false) (hfront : IsFront r d (w.Writes o) front)
    (has : ∀ x ∈ as, ∃ s, Spells (.item (f x)) s ∧ w.Writes x s) :
    ∃ s, Spells (.args (as.map f)) s ∧ w.Writes t (front ++ s ++ ";") := by
  obtain ⟨ss, k, hss, hargs⟩ := writes_args has
  obtain ⟨l, hl⟩ : ∃ l, ∀ n ≥ l,
      IsFront r d (fun s => answer n (.signature o) w = .ok s w) front := by
    unfold IsFront at hfront ⊢
    split at hfront
    next hp =>
      obtain ⟨s, ⟨l, hs⟩, hfront⟩ := hfront
      exact ⟨l, fun n hn => by rw [if_pos hp]; exact ⟨s, hs n hn, hfront⟩⟩
    next hp => exact ⟨0, fun _ _ => by rwa [if_neg hp]⟩
  refine ⟨_, hss, writes_of_rule (k := max k l) fun n hn => ?_⟩
  exact @signatureRule_parameterized _ _ _ _ ⟨answer n⟩ _ _ _ _ _ _ h hg ho hwaiting
    (hl n (by omega)) (hargs n (by omega))

theorem letter_ofLetter {b : BasicType} (hb : b.isPrimitive) :
    ∃ letter, b.letter? = some letter ∧ BasicType.ofLetter? letter = some b := by
  cases b <;> first | exact ⟨_, rfl, rfl⟩ | cases hb

/-- The text that is written for a type spells its signature. -/
theorem Signed.written {a : ArgSig} (hw : w.Canonical) (h : w.Signed vars t a) :
    ∃ s, Spells (.item a) s ∧ w.Writes t s := by
  induction h with
  | base hb h =>
    obtain ⟨letter, hletter, hof⟩ := letter_ofLetter hb
    exact ⟨_, .exact (.primitive hof), (Plain.base h hletter).writes⟩
  | declared h => exact ⟨_, .exact (spells_class h.named), (Plain.declared h.is).writes⟩
  | raw h hg => exact ⟨_, .exact (spells_class hg.named), (Plain.raw h hg.is).writes⟩
  | «variable» h hname =>
    exact ⟨_, .exact (.variable hname), writes_of_rule (k := 0) fun n _ =>
      @signatureRule_variable _ _ ⟨answer n⟩ _ h⟩
  | @array t e k a h _ _ ih =>
    obtain ⟨s, hs, m, hm⟩ := ih
    cases hs with
    | exact hs =>
    exact ⟨_, .exact (hs.arrays k), writes_of_rule fun n hn =>
      @signatureRule_array _ _ _ _ _ ⟨answer n⟩ h (hm n hn)⟩
  | unbounded h =>
    exact ⟨_, .unbounded, writes_of_rule (k := 0) fun n _ =>
      @signatureRule_unbounded _ _ _ ⟨answer n⟩ h⟩
  | upper h _ ih =>
    obtain ⟨s, hs, m, hm⟩ := ih
    cases hs with
    | exact hs =>
    exact ⟨_, .upper hs, writes_of_rule fun n hn =>
      @signatureRule_upper _ _ _ _ ⟨answer n⟩ h (hm n hn)⟩
  | lower h _ ih =>
    obtain ⟨s, hs, m, hm⟩ := ih
    cases hs with
    | exact hs =>
    exact ⟨_, .lower hs, writes_of_rule fun n hn =>
      @signatureRule_lower _ _ _ _ ⟨answer n⟩ h (hm n hn)⟩
  | parameterized h hg hne _ ih =>
    have hnone : w.Is .none .absent := ⟨hw.usable_none.1, hw.absent⟩
    obtain ⟨s, hs, hwrites⟩ := writes_parameterized h hg.is hnone rfl rfl ih
    refine ⟨_, .exact (.cls (.top hg.named hs)), ?_⟩
    rwa [Text.append_assoc "L"] at hwrites
  | @member t g o as _ d f c h hg hname ho houter _ iho ih =>
    obtain ⟨r, hr, -, hwaiting⟩ := ho.is
    obtain ⟨front, hfront, hwriteso⟩ := iho
    cases hfront with
    | exact hfront =>
    cases hfront with
    | @cls _ front hfront =>
    have hisFront : IsFront r d (w.Writes o) ("L" ++ front ++ "." ++ d.name) := by
      unfold IsFront
      rw [if_pos (hr.shape ▸ houter)]
      exact ⟨_, hwriteso, by rw [Text.dropEnd_append]⟩
    obtain ⟨s, hs, hwrites⟩ := writes_parameterized h hg.is hr hwaiting hisFront ih
    refine ⟨_, .exact (.cls (.nested hfront (ho.kept houter) hname hs)), ?_⟩
    simp only [Text.append_assoc] at hwrites ⊢
    exact hwrites

/-! ## What a class file holds -/

theorem Writes.unique {s' : Text} (h : w.Writes t s) (h' : w.Writes t s') : s = s' := by
  obtain ⟨k, hk⟩ := h
  obtain ⟨l, hl⟩ := h'
  have hs := (hk (max k l) (by omega)).symm.trans (hl (max k l) (by omega))
  injection hs

/-- A type mentions type variables or arguments, or is a type without a signature or an array of
such types. -/
theorem Signed.generic_or_plain (hw : w.Canonical) (h : w.Signed vars t (.exact a)) :
    (∀ [Answers] (k : Nat), Lookup.isGenericIn (k + 2) t w = .ok true w) ∨
      (∃ e s, w.Plain t e s) ∨
      ∃ e n p s, w.Is t (.composite (.array e n)) ∧ n ≠ 0 ∧ w.Plain e p s := by
  have hflat {e : TypeId} {n m : Nat} {x : TypeId} (ht : w.Is t (.composite (.array e n)))
      (he : w.Is e (.composite (.array x m))) : False := by
    have hshape := hw.flat ht.shape
    rw [he.shape] at hshape
    cases hshape
  generalize ha : ArgSig.exact a = b at h
  cases h with
  | base hb h =>
    obtain ⟨letter, hletter, -⟩ := letter_ofLetter hb
    exact .inr (.inl ⟨_, _, .base h hletter⟩)
  | declared h => exact .inr (.inl ⟨_, _, .declared h.is⟩)
  | raw h hg => exact .inr (.inl ⟨_, _, .raw h hg.is⟩)
  | «variable» h | parameterized h | member h =>
    refine .inl fun k => ?_
    rw [Lookup.isGenericIn, bind_run (h.lookup rfl)]
    rfl
  | unbounded | upper | lower => cases ha
  | @array t e n a' h hn he =>
    have generic [Answers] (k : Nat) (hk : Lookup.isGenericIn (k + 1) e w = .ok true w) :
        Lookup.isGenericIn (k + 2) t w = .ok true w := by
      rw [Lookup.isGenericIn, bind_run (h.lookup rfl)]
      exact hk
    generalize ArgSig.exact a' = b' at he
    cases he with
    | base hb he =>
      obtain ⟨letter, hletter, -⟩ := letter_ofLetter hb
      exact .inr (.inr ⟨_, n, _, _, h, hn, .base he hletter⟩)
    | declared he => exact .inr (.inr ⟨_, n, _, _, h, hn, .declared he.is⟩)
    | raw he hg => exact .inr (.inr ⟨_, n, _, _, h, hn, .raw he hg.is⟩)
    | «variable» he | parameterized he | member he | unbounded he | upper he | lower he =>
      refine .inl fun k => generic k ?_
      rw [Lookup.isGenericIn, bind_run (he.lookup rfl)]
      rfl
    | array he => exact (hflat h he).elim

theorem isGenericType_run [Answers] {b : Bool} (ht : t.index < w.types.size)
    (h : ∀ k, Lookup.isGenericIn (k + 2) t w = .ok b w) :
    Lookup.isGenericType t w = .ok b w := by
  unfold Lookup.isGenericType
  rw [bind_run (get_run w), show w.types.size + 1 = w.types.size - 1 + 2 by omega]
  exact h _

theorem storedText_plain [Answers] (ht : t.index < w.types.size)
    (h : ∀ k, Lookup.isGenericIn (k + 2) t w = .ok false w) :
    Lookup.storedText t w = Lookup.descriptor t w := by
  have hsignature : Lookup.fieldSignature t w = .ok {} w := by
    unfold Lookup.fieldSignature
    rw [bind_run (isGenericType_run ht h)]
    rfl
  unfold Lookup.storedText
  rw [bind_run hsignature]
  rfl

theorem storedText_generic [Answers] (ht : t.index < w.types.size)
    (h : ∀ k, Lookup.isGenericIn (k + 2) t w = .ok true w)
    (hs : ask (.signature t) w = .ok s w) (hne : s.isEmpty = false) :
    Lookup.storedText t w = .ok s w := by
  have hsignature : Lookup.fieldSignature t w = .ok s w := by
    unfold Lookup.fieldSignature
    rw [bind_run (isGenericType_run ht h)]
    exact hs
  unfold Lookup.storedText
  rw [bind_run hsignature, hne]
  rfl

/-- An array is written as its erasure, whose elements are the erasures of its elements. -/
theorem descriptor_array {p : TypeId} (hw : w.Tidy) (h : w.Is t (.composite (.array e n)))
    (hn : n ≠ 0) (he : w.Plain e p s) : ∃ v, w.Reaches v ∧ ∀ m,
      @Lookup.descriptor ⟨answer (m + 2)⟩ t w = .ok (Text.replicate n '[' ++ s) v := by
  obtain ⟨r, hp, habsent, harray⟩ := he.is
  obtain ⟨u, v, hrun, hreaches, hu⟩ := hw.array hp habsent harray hn
  refine ⟨v, hreaches, fun m => ?_⟩
  let _ : Answers := ⟨answer (m + 2)⟩
  have herasure : Lookup.erasure t w = .ok u v := by
    let _ : Answers := ⟨answer (m + 1)⟩
    change Lookup.erasureRule t w = .ok u v
    unfold Lookup.erasureRule
    rw [bind_run (h.view rfl)]
    dsimp only
    rw [bind_run (show Lookup.erasure e w = .ok p w from he.erasure m)]
    exact hrun
  have hsize : w.types.size = w.types.size - 1 + 1 := by
    have hlt := (h.usable rfl).2
    omega
  unfold Lookup.descriptor
  rw [bind_run (get_run w), Lookup.descriptorIn, bind_run herasure, bind_run (hu.lookup rfl)]
  dsimp only
  rw [hsize, bind_run ((he.erased.reaches hreaches).descriptorIn (m + 1) _)]
  rfl

/-- The text that a class file holds for a type spells its signature. -/
theorem Signed.stored (hw : w.Tidy) (h : w.Signed vars t (.exact a)) :
    ∃ s v k, Spells (.type a) s ∧ w.Writes t s ∧ w.Reaches v ∧
      ∀ n ≥ k, @Lookup.storedText ⟨answer n⟩ t w = .ok s v := by
  obtain ⟨s, hspells, hwrites⟩ := h.written hw.canonical
  cases hspells with
  | exact hspells =>
  obtain ⟨r, hr, habsent, -⟩ := h.is
  have hlt := (hr.usable habsent).2
  rcases h.generic_or_plain hw.canonical with hgeneric | ⟨e, s', hplain⟩ | ⟨e, n, p, s', ht, hn, he⟩
  · obtain ⟨k, hk⟩ := hwrites
    have hne : s.isEmpty = false := by
      obtain ⟨b, tail, hs, -⟩ := hspells.type_head
      rw [Text.isEmpty_eq, hs]
      rfl
    refine ⟨s, w, k, hspells, ⟨k, hk⟩, .refl hw, fun n hn => ?_⟩
    exact @storedText_generic _ _ _ ⟨answer n⟩ hlt (fun k => @hgeneric ⟨answer n⟩ k) (hk n hn) hne
  · obtain rfl := hwrites.unique hplain.writes
    refine ⟨s, w, 1, hspells, hwrites, .refl hw, fun n hn => ?_⟩
    obtain ⟨n, rfl⟩ : ∃ m, n = m + 1 := ⟨n - 1, by omega⟩
    let _ : Answers := ⟨answer (n + 1)⟩
    rw [storedText_plain hlt fun k => hplain.isGenericIn _]
    unfold Lookup.descriptor
    rw [bind_run (get_run w)]
    exact hplain.descriptorIn n _
  · obtain ⟨l, hl⟩ := he.writes
    have harray : w.Writes t (Text.replicate n '[' ++ s') := writes_of_rule fun m hm =>
      @signatureRule_array _ _ _ _ _ ⟨answer m⟩ ht (hl m hm)
    obtain rfl := hwrites.unique harray
    obtain ⟨v, hreaches, hrun⟩ := descriptor_array hw ht hn he
    refine ⟨_, v, 2, hspells, hwrites, hreaches, fun m hm => ?_⟩
    obtain ⟨m, rfl⟩ : ∃ k, m = k + 2 := ⟨m - 2, by omega⟩
    let _ : Answers := ⟨answer (m + 2)⟩
    have hgeneric (k : Nat) : Lookup.isGenericIn (k + 2) t w = .ok false w := by
      rw [Lookup.isGenericIn, bind_run (ht.lookup rfl)]
      exact he.isGenericIn (k + 1)
    rw [storedText_plain hlt hgeneric]
    exact hrun m

end World

end Javelin
