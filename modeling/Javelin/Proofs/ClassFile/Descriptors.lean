import Mathlib.Algebra.Ring.Nat
import Javelin.Bytecode.Opcode
import Javelin.ClassFile.Descriptor
import Javelin.Proofs.ClassFile.RoundTrip
import Javelin.Proofs.Text.Cutting

/-!
# The spelling of descriptors

`IsField` and `IsMethod` are the grammar of descriptors. The reader of method descriptors takes
exactly the texts of the grammar, and what it reads is written back as the same text. The pass that
counts the words of a call trusts its descriptor; on the texts of the grammar it stays inside the
text and counts what the types that were read say (`methods_read_and_counted`).

1. The grammar, and the fields that are written in it.
2. Reading fields, one and many.
3. Counting words.
-/

namespace Javelin

open Text
open ClassFile (except_bind_ok)

namespace BasicType

/-- A primitive type is written by the letter it is read from. -/
theorem ofLetter?_eq_some {b : UInt8} {p : BasicType} :
    ofLetter? b = some p ↔ p.letter? = some b := by
  constructor
  · intro h
    have hall : ∀ q ∈ letters, q.2.letter? = some q.1 := by decide
    obtain ⟨l₁, l₂, hl, -⟩ := List.lookup_eq_some_iff.mp h
    exact hall (b, p) (by rw [hl]; simp)
  · intro h
    have hall : ∀ q ∈ letters, ofLetter? q.1 = some q.2 := by decide
    obtain ⟨q, hq, hb⟩ := Option.map_eq_some_iff.mp h
    have hp : q.2 = p := by simpa using List.find?_some hq
    rw [← hb, ← hp]
    exact hall q (List.mem_of_find?_eq_some hq)

/-- The bytes that stand for something else in a descriptor are no letters of types. -/
theorem ne_of_letter? {b c : UInt8} {p : BasicType} (h : p.letter? = some b)
    (hc : c ∈ (['[', 'L', ')', 'V'] : List UInt8)) : b ≠ c := by
  have hall : ∀ c ∈ (['[', 'L', ')', 'V'] : List UInt8), ofLetter? c = none := by decide +kernel
  rintro rfl
  rw [← ofLetter?_eq_some, hall b hc] at h
  cases h

end BasicType

namespace Descriptor

/-! ## The grammar -/

/-- The descriptor of a type: a letter, or a class name between `L` and a semicolon, behind any
number of brackets. -/
inductive IsField : List UInt8 → Prop
  | primitive {b : UInt8} (h : b ∈ (['B', 'C', 'D', 'F', 'I', 'J', 'S', 'Z'] : List UInt8)) :
    IsField [b]
  | cls {name : List UInt8} (hname : name ≠ []) (hsemicolon : (';' : UInt8) ∉ name) :
    IsField (('L' : UInt8) :: (name ++ [(';' : UInt8)]))
  | array {bs : List UInt8} (h : IsField bs) : IsField (('[' : UInt8) :: bs)

/-- The descriptor of a method: types in parentheses, and `V` or the type of the result. -/
def IsMethod (bs : List UInt8) : Prop :=
  ∃ (params : List (List UInt8)) (result : List UInt8), (∀ p ∈ params, IsField p) ∧
    (result = [('V' : UInt8)] ∨ IsField result) ∧
    bs = ('(' : UInt8) :: (params.flatten ++ (')' : UInt8) :: result)

/-- The text of the descriptor of a method. -/
def Method.render (m : Method) : Text :=
  "(" ++ Text.concat (m.params.map Field.render) ++ ")" ++ (m.result.map Field.render).getD "V"

/-- What an array can consist of. -/
inductive Element.WellFormed : Element → Prop
  | primitive {p : BasicType} {b : UInt8} (h : p.letter? = some b) : WellFormed (.primitive p)
  | cls {name : Text} (hname : name.toList ≠ []) (hsemicolon : (';' : UInt8) ∉ name.toList) :
    WellFormed (.cls name)

theorem Element.toList_render_primitive {p : BasicType} {b : UInt8} (h : p.letter? = some b) :
    (Element.primitive p).render.toList = [b] := by
  simp only [Element.render, h]
  rfl

theorem Element.toList_render_cls (name : Text) : (Element.cls name).render.toList =
    ('L' : UInt8) :: (name.toList ++ [(';' : UInt8)]) := by
  simp only [Element.render, toList_append]
  rfl

theorem Field.toList_render (f : Field) :
    f.render.toList = List.replicate f.depth ('[' : UInt8) ++ f.element.render.toList := by
  rw [Field.render, toList_append, Text.replicate, toList_ofList]

/-- The grammar gives the texts of the fields whose element is well formed. -/
theorem isField_iff {bs : List UInt8} :
    IsField bs ↔ ∃ f : Field, f.element.WellFormed ∧ f.render.toList = bs := by
  have hletters : ∀ b ∈ (['B', 'C', 'D', 'F', 'I', 'J', 'S', 'Z'] : List UInt8),
      (BasicType.ofLetter? b).isSome := by decide +kernel
  have hall : ∀ q ∈ BasicType.letters,
      q.1 ∈ (['B', 'C', 'D', 'F', 'I', 'J', 'S', 'Z'] : List UInt8) := by decide +kernel
  constructor
  · intro h
    induction h with
    | primitive h =>
      obtain ⟨p, hp⟩ := Option.isSome_iff_exists.mp (hletters _ h)
      have hletter := BasicType.ofLetter?_eq_some.mp hp
      refine ⟨⟨.primitive p, 0⟩, .primitive hletter, ?_⟩
      rw [Field.toList_render, Element.toList_render_primitive hletter]
      rfl
    | @cls name hname hsemicolon =>
      refine ⟨⟨.cls (ofList name), 0⟩, .cls hname hsemicolon, ?_⟩
      rw [Field.toList_render, Element.toList_render_cls]
      rfl
    | array _ ih =>
      obtain ⟨f, hf, hbs⟩ := ih
      refine ⟨⟨f.element, f.depth + 1⟩, hf, ?_⟩
      rw [Field.toList_render, ← hbs, Field.toList_render]
      rfl
  · rintro ⟨⟨element, depth⟩, hf, rfl⟩
    rw [Field.toList_render]
    induction depth with
    | zero =>
      cases hf with
      | primitive h =>
        obtain ⟨q, hq, hb⟩ := Option.map_eq_some_iff.mp h
        simp only [Element.toList_render_primitive h]
        exact .primitive (hb ▸ hall q (List.mem_of_find?_eq_some hq))
      | cls hname hsemicolon =>
        simp only [Element.toList_render_cls]
        exact .cls hname hsemicolon
    | succ depth ih => exact .array (ih hf)

/-! ## Reading -/

/-- The text of a well-formed element starts with its letter. -/
theorem Element.WellFormed.head {e : Element} (h : e.WellFormed) :
    ∃ b bs, e.render.toList = b :: bs ∧ b ≠ ('[' : UInt8) ∧ b ≠ (')' : UInt8) ∧
      b ≠ ('V' : UInt8) := by
  cases h with
  | @primitive p b h =>
    exact ⟨b, [], Element.toList_render_primitive h, BasicType.ne_of_letter? h (by decide),
      BasicType.ne_of_letter? h (by decide), BasicType.ne_of_letter? h (by decide)⟩
  | @cls name _ _ =>
    exact ⟨_, _, Element.toList_render_cls name, by decide, by decide, by decide⟩

/-- Behind its brackets a field is an element. -/
theorem skipWhile_brackets {t : Text} {i n : Nat} {b : UInt8} {bs : List UInt8}
    (ht : t.toList.drop i = List.replicate n ('[' : UInt8) ++ b :: bs) (hb : b ≠ ('[' : UInt8)) :
    t.skipWhile (· == '[') i = i + n ∧ t.toList.drop (i + n) = b :: bs := by
  constructor
  · rw [skipWhile_eq, ht, List.takeWhile_append_of_pos (by simp), List.takeWhile_cons_of_neg
      (by simpa using hb), List.append_nil, List.length_replicate]
  · rw [← List.drop_drop, ht, List.drop_left' (List.length_replicate ..)]

/-- Reading takes the text of a field off what follows. -/
theorem fieldAt_of_drop {t : Text} {i : Nat} {f : Field} {rest : List UInt8}
    (hf : f.element.WellFormed) (ht : t.toList.drop i = f.render.toList ++ rest) :
    fieldAt t i = .ok (f, i + f.render.toList.length) := by
  obtain ⟨element, depth⟩ := f
  obtain ⟨b, bs, hbs, hbracket, -⟩ := hf.head
  rw [Field.toList_render] at ht ⊢
  simp only [hbs] at ht ⊢
  rw [List.append_assoc, List.cons_append] at ht
  obtain ⟨hskip, hdrop⟩ := skipWhile_brackets ht hbracket
  have hget : t.get? (i + depth) = some b := by
    rw [get?_eq, ← List.head?_drop, hdrop, List.head?_cons]
  have hlength :
      (List.replicate depth ('[' : UInt8) ++ b :: bs).length = depth + 1 + bs.length := by
    simp
    omega
  rw [hlength]
  cases hf with
  | @primitive p c h =>
    rw [Element.toList_render_primitive h] at hbs
    obtain ⟨rfl, rfl⟩ := List.cons.inj hbs
    simp only [fieldAt, hskip, hget, BasicType.ofLetter?_eq_some.mpr h, Nat.add_sub_cancel_left,
      List.length_nil]
    rfl
  | @cls name hname hsemicolon =>
    rw [Element.toList_render_cls] at hbs
    obtain ⟨rfl, rfl⟩ := List.cons.inj hbs
    rw [List.append_assoc] at hdrop
    have hrun : (t.toList.drop (i + depth)).takeWhile (· != (';' : UInt8)) =
        ('L' : UInt8) :: name.toList := by
      rw [hdrop, List.takeWhile_cons_of_pos (by decide), List.takeWhile_append_of_pos]
      · simp
      · intro x hx
        simp only [bne_iff_ne]
        rintro rfl
        exact hsemicolon hx
    have hstop : t.skipWhile (· != ';') (i + depth) = i + depth + 1 + name.toList.length := by
      rw [skipWhile_eq, hrun, List.length_cons]
      omega
    have hsize : i + depth + 1 + name.toList.length < t.size := by
      have := congrArg List.length hdrop
      simp [size_eq] at this ⊢
      omega
    have hpos := List.length_pos_of_ne_nil hname
    have hslice : t.slice (i + depth + 1) (i + depth + 1 + name.toList.length) = name := by
      apply ext_toList
      rw [toList_slice, ← List.drop_drop, hdrop]
      simp
    rw [fieldAt]
    have hnone : BasicType.ofLetter? 'L' = none := by decide
    simp only [hskip, hget, hnone, hstop, hslice, Nat.add_sub_cancel_left]
    rw [if_pos (by decide), if_pos (by simp [hsize]; omega)]
    simp [pure, Except.pure]
    omega

/-- The name of a class goes up to a semicolon. -/
theorem exists_name {t : Text} {i : Nat} {b : UInt8} {bs : List UInt8}
    (ht : t.toList.drop i = b :: bs) (hb : (b == ('L' : UInt8)) = true)
    (hsize : t.skipWhile (· != ';') i < t.size) : ∃ name rest,
      bs = name ++ (';' : UInt8) :: rest ∧ (';' : UInt8) ∉ name ∧
      t.skipWhile (· != ';') i = i + 1 + name.length := by
  obtain ⟨run, hskip, hdrop, hrun, hhead⟩ := exists_run t (· != ';') i
  rw [hskip] at hsize ⊢
  have hlt : i + run.length < t.toList.length := hsize
  rw [List.drop_eq_getElem_cons hlt] at hdrop hhead
  have hsemicolon : t.toList[i + run.length] = (';' : UInt8) := by
    simpa using hhead _ rfl
  rw [ht, hsemicolon] at hdrop
  cases run with
  | nil =>
    have := (List.cons.inj hdrop).1
    rw [this] at hb
    exact absurd hb (by decide)
  | cons c name =>
    refine ⟨name, _, (List.cons.inj hdrop).2, fun h => ?_, by simp; omega⟩
    exact absurd (hrun _ (List.mem_cons_of_mem c h)) (by decide)

/-- What is read stands in the text. -/
theorem fieldAt_sound {t : Text} {i j : Nat} {f : Field} (h : fieldAt t i = .ok (f, j)) :
    f.element.WellFormed ∧ ∃ rest, t.toList.drop i = f.render.toList ++ rest ∧
      j = i + f.render.toList.length := by
  obtain ⟨run, hskip, hdrop, hrun, -⟩ := exists_run t (· == '[') i
  have hbrackets : run = List.replicate run.length ('[' : UInt8) :=
    List.eq_replicate_of_mem fun b hb => by simpa using hrun b hb
  generalize run.length = n at hskip hdrop hbrackets
  rw [fieldAt] at h
  simp only [hskip, Nat.add_sub_cancel_left] at h
  split at h
  · cases h
  next b hget =>
  rw [get?_eq, ← List.head?_drop] at hget
  obtain ⟨tail, htail⟩ := List.head?_eq_some_iff.mp hget
  rw [htail, hbrackets] at hdrop
  split at h
  next p hp =>
    have hletter := BasicType.ofLetter?_eq_some.mp hp
    cases h
    refine ⟨.primitive hletter, tail, ?_, ?_⟩
    · rw [hdrop, Field.toList_render, Element.toList_render_primitive hletter, List.append_assoc]
      rfl
    · rw [Field.toList_render, Element.toList_render_primitive hletter]
      simp [Nat.add_assoc]
  split at h
  next hb =>
    split at h
    next hstop =>
      obtain ⟨hsize, hname⟩ : t.skipWhile (· != ';') (i + n) < t.size ∧
          i + n + 2 ≤ t.skipWhile (· != ';') (i + n) := by simpa using hstop
      obtain ⟨name, rest, hcls, hsemicolon, hskip⟩ := exists_name htail hb hsize
      rw [hskip] at h hname
      have hslice : (t.slice (i + n + 1) (i + n + 1 + name.length)).toList = name := by
        rw [toList_slice, ← List.drop_drop, htail, hcls]
        simp
      cases h
      refine ⟨.cls ?_ (by rwa [hslice]), rest, ?_, ?_⟩
      · rw [hslice]
        exact List.ne_nil_of_length_pos (by omega)
      · rw [hdrop, hcls, Field.toList_render, Element.toList_render_cls, hslice, eq_of_beq hb]
        simp
      · rw [Field.toList_render, Element.toList_render_cls, hslice]
        simp
        omega
    next => cases h
  next => cases h

/-- The texts of several fields, one behind the other. -/
def spelled (fs : List Field) : List UInt8 := fs.flatMap fun f => f.render.toList

@[simp] theorem spelled_nil : spelled [] = [] := rfl

@[simp] theorem spelled_cons (f : Field) (fs : List Field) :
    spelled (f :: fs) = f.render.toList ++ spelled fs := rfl

theorem Field.head_render {f : Field} (h : f.element.WellFormed) :
    ∃ b bs, f.render.toList = b :: bs ∧ b ≠ (')' : UInt8) ∧ b ≠ ('V' : UInt8) := by
  rw [Field.toList_render]
  cases f.depth with
  | zero =>
    obtain ⟨b, bs, hbs, -, hb⟩ := h.head
    exact ⟨b, bs, hbs, hb⟩
  | succ n => exact ⟨_, _, rfl, by decide, by decide⟩

/-- Reading takes the texts of fields up to a closing parenthesis. -/
theorem fieldsFrom_of_drop {t : Text} {fs : List Field} {rest : List UInt8} {i : Nat} (fuel : Nat)
    (hfs : ∀ f ∈ fs, f.element.WellFormed)
    (ht : t.toList.drop i = spelled fs ++ (')' : UInt8) :: rest) (hfuel : t.size ≤ i + fuel) :
    fieldsFrom t i fuel = .ok (fs, i + (spelled fs).length) := by
  have hlt : i < t.toList.length := by
    have := congrArg List.length ht
    simp at this
    omega
  induction fs generalizing i fuel with
  | nil =>
    cases fuel with
    | zero => exact absurd hfuel (Nat.not_le_of_lt hlt)
    | succ fuel =>
      have hget : t.get? i = some (')' : UInt8) := by
        rw [get?_eq, ← List.head?_drop, ht]
        rfl
      simp only [fieldsFrom, hget]
      rfl
  | cons f fs ih =>
    cases fuel with
    | zero => exact absurd hfuel (Nat.not_le_of_lt hlt)
    | succ fuel =>
      obtain ⟨b, bs, hbs, hb, -⟩ := Field.head_render (hfs f List.mem_cons_self)
      rw [spelled_cons, List.append_assoc] at ht
      have hfield := fieldAt_of_drop (hfs f List.mem_cons_self) ht
      have hget : t.get? i = some b := by
        rw [get?_eq, ← List.head?_drop, ht, hbs]
        rfl
      have hrest : t.toList.drop (i + f.render.toList.length) =
          spelled fs ++ (')' : UInt8) :: rest := by
        rw [← List.drop_drop, ht, List.drop_left]
      have hpos : 0 < f.render.toList.length := by simp [hbs]
      have hfields := ih fuel (fun g hg => hfs g (List.mem_cons_of_mem _ hg)) hrest (by omega) (by
          have := congrArg List.length hrest
          simp at this
          omega)
      simp only [fieldsFrom, hget]
      rw [if_neg (by simpa using hb)]
      simp only [hfield, hfields, bind, Except.bind, pure, Except.pure]
      rw [spelled_cons, List.length_append, Nat.add_assoc]

theorem fieldsFrom_sound {t : Text} {fs : List Field} {i j fuel : Nat}
    (h : fieldsFrom t i fuel = .ok (fs, j)) (hfuel : t.size ≤ i + fuel) :
    (∀ f ∈ fs, f.element.WellFormed) ∧ ∃ rest, t.toList.drop i = spelled fs ++ rest ∧
      j = i + (spelled fs).length ∧ ∀ b ∈ rest.head?, b = (')' : UInt8) := by
  induction fuel generalizing i j fs with
  | zero =>
    cases h
    have hdrop : t.toList.drop i = [] := List.drop_eq_nil_of_le hfuel
    exact ⟨by simp, [], by simp [hdrop], rfl, by simp⟩
  | succ fuel ih =>
    rw [fieldsFrom] at h
    split at h
    next hget =>
      rw [get?_eq, ← List.head?_drop, List.head?_eq_none_iff] at hget
      cases h
      exact ⟨by simp, [], by simp [hget], rfl, by simp⟩
    next b hget =>
      rw [get?_eq, ← List.head?_drop] at hget
      split at h
      next hb =>
        cases h
        refine ⟨by simp, t.toList.drop i, rfl, rfl, fun c hc => ?_⟩
        rw [Option.mem_def, hget] at hc
        cases hc
        exact eq_of_beq hb
      next =>
        obtain ⟨⟨f, k⟩, hfield, h⟩ := except_bind_ok h
        obtain ⟨⟨gs, l⟩, hfields, h⟩ := except_bind_ok h
        cases h
        obtain ⟨hf, rest, hdrop, rfl⟩ := fieldAt_sound hfield
        have hpos : 0 < f.render.toList.length := by
          obtain ⟨b, bs, hbs, -⟩ := Field.head_render hf
          simp [hbs]
        obtain ⟨hgs, rest', hdrop', rfl, hhead⟩ := ih hfields (by omega)
        rw [← List.drop_drop, hdrop, List.drop_left] at hdrop'
        refine ⟨List.forall_mem_cons.mpr ⟨hf, hgs⟩, rest', ?_, ?_, hhead⟩
        · rw [hdrop, hdrop']
          simp
        · simp [Nat.add_assoc]

/-- The types that a method can be read with. -/
def Method.WellFormed (m : Method) : Prop :=
  (∀ f ∈ m.params, f.element.WellFormed) ∧ ∀ f ∈ m.result, f.element.WellFormed

/-- The text of the result. -/
def resultText (result : Option Field) : List UInt8 :=
  (result.map fun f => f.render.toList).getD [('V' : UInt8)]

theorem Method.toList_render (m : Method) : m.render.toList =
    ('(' : UInt8) :: (spelled m.params ++ (')' : UInt8) :: resultText m.result) := by
  have hparams : (Text.concat (m.params.map Field.render)).toList = spelled m.params := by
    rw [toList_concat, List.flatMap_map]
    rfl
  simp only [Method.render, toList_append, hparams]
  cases m.result <;> simp [resultText] <;> rfl

theorem exists_spelled {params : List (List UInt8)} (h : ∀ p ∈ params, IsField p) :
    ∃ fs : List Field, (∀ f ∈ fs, f.element.WellFormed) ∧ spelled fs = params.flatten := by
  induction params with
  | nil => exact ⟨[], by simp, rfl⟩
  | cons p params ih =>
    obtain ⟨hp, hparams⟩ := List.forall_mem_cons.mp h
    obtain ⟨f, hf, rfl⟩ := isField_iff.mp hp
    obtain ⟨fs, hfs, hspelled⟩ := ih hparams
    exact ⟨f :: fs, List.forall_mem_cons.mpr ⟨hf, hfs⟩, by rw [spelled_cons, hspelled]; rfl⟩

/-- The grammar gives the texts of the methods whose types are well formed. -/
theorem isMethod_iff {bs : List UInt8} :
    IsMethod bs ↔ ∃ m : Method, m.WellFormed ∧ m.render.toList = bs := by
  constructor
  · rintro ⟨params, result, hparams, hresult, rfl⟩
    obtain ⟨fs, hfs, hspelled⟩ := exists_spelled hparams
    rcases hresult with rfl | hresult
    · refine ⟨⟨fs, none⟩, ⟨hfs, nofun⟩, ?_⟩
      rw [Method.toList_render, hspelled]
      rfl
    · obtain ⟨f, hf, rfl⟩ := isField_iff.mp hresult
      refine ⟨⟨fs, some f⟩, ⟨hfs, by simpa using hf⟩, ?_⟩
      rw [Method.toList_render, hspelled]
      rfl
  · rintro ⟨m, ⟨hparams, hresult⟩, rfl⟩
    refine ⟨m.params.map fun f => f.render.toList, resultText m.result, ?_, ?_, ?_⟩
    · rw [List.forall_mem_map]
      exact fun f hf => isField_iff.mpr ⟨f, hparams f hf, rfl⟩
    · cases h : m.result with
      | none => exact .inl rfl
      | some f => exact .inr (isField_iff.mpr ⟨f, hresult f h, rfl⟩)
    · rw [Method.toList_render]
      rfl

/-- The reader takes every method whose types are well formed. -/
theorem Method.ofText_render {t : Text} {m : Method} (hm : m.WellFormed) (ht : m.render = t) :
    Method.ofText t = .ok m := by
  obtain ⟨params, result⟩ := m
  obtain ⟨hparams, hresult⟩ := hm
  have hbytes := Method.toList_render ⟨params, result⟩
  rw [ht] at hbytes
  have hopen : t.get? 0 = some (40 : UInt8) := by
    rw [get?_eq, hbytes]
    rfl
  have hrest : t.toList.drop 1 = spelled params ++ (')' : UInt8) :: resultText result := by
    rw [hbytes]
    rfl
  have hfields := fieldsFrom_of_drop t.size hparams hrest (by omega)
  have hlast : t.toList.drop (1 + (spelled params).length + 1) = resultText result := by
    rw [Nat.add_assoc, ← List.drop_drop, hrest, ← List.drop_drop, List.drop_left]
    rfl
  have hsize : t.size = 1 + (spelled params).length + 1 + (resultText result).length := by
    rw [size_eq, hbytes]
    simp
    omega
  simp only [Method.ofText, hopen, hfields, bind, Except.bind]
  rw [if_neg (by decide)]
  simp only [pure, Except.pure]
  rw [if_neg (by omega)]
  cases result with
  | none =>
    have hsize : 1 + (spelled params).length + 2 = t.size := hsize.symm
    rw [at0_of_drop hlast, hsize, if_pos (by simp)]
  | some f =>
    have hf := hresult f rfl
    obtain ⟨b, bs, hb, -, hV⟩ := Field.head_render hf
    have hlast' : t.toList.drop (1 + (spelled params).length + 1) = f.render.toList ++ [] := by
      rw [hlast, List.append_nil]
      rfl
    have hfield := fieldAt_of_drop hf hlast'
    have hsize : 1 + (spelled params).length + 1 + f.render.toList.length = t.size := hsize.symm
    rw [hb] at hlast'
    rw [at0_of_drop hlast', if_neg (by
      simp only [Bool.and_eq_true, beq_iff_eq]
      exact fun h => hV h.1)]
    simp only [hfield, hsize]
    rw [if_neg (by simp)]

/-- What is read as a method has well-formed types and is written as it was. -/
theorem Method.render_ofText {t : Text} {m : Method} (h : Method.ofText t = .ok m) :
    m.WellFormed ∧ m.render = t := by
  simp only [Method.ofText] at h
  split at h
  · cases h
  next hopen =>
  obtain ⟨⟨params, i⟩, hfields, h⟩ := except_bind_ok h
  split at h
  · cases h
  next hi =>
  obtain ⟨hparams, rest, hrest, rfl, hclose⟩ := fieldsFrom_sound hfields (by omega)
  have hfirst : t.toList = ('(' : UInt8) :: t.toList.drop 1 := by
    have : t.toList.head? = some (40 : UInt8) := by
      rw [List.head?_eq_getElem?, ← get?_eq]
      simpa using hopen
    obtain ⟨bs, hbs⟩ := List.head?_eq_some_iff.mp this
    rw [hbs]
    rfl
  obtain ⟨b, last, rfl⟩ : ∃ b last, rest = b :: last := by
    refine List.exists_cons_of_ne_nil fun hnil => hi ?_
    have := congrArg List.length hfirst
    rw [hrest, hnil] at this
    simp [size_eq] at this ⊢
    omega
  obtain rfl : b = (')' : UInt8) := hclose b rfl
  have hlast : t.toList.drop (1 + (spelled params).length + 1) = last := by
    rw [Nat.add_assoc, ← List.drop_drop, hrest, ← List.drop_drop, List.drop_left]
    rfl
  have hrender (result : Option Field) (hresult : resultText result = last) :
      Method.render ⟨params, result⟩ = t := by
    apply ext_toList
    rw [Method.toList_render, hfirst, hrest, hresult]
  split at h
  next hvoid =>
    cases h
    refine ⟨⟨hparams, nofun⟩, hrender none ?_⟩
    obtain ⟨hbyte, hsize⟩ : t.at0 (1 + (spelled params).length + 1) = ('V' : UInt8) ∧
        1 + (spelled params).length + 2 = t.size := by
      simpa only [Bool.and_eq_true, beq_iff_eq] using hvoid
    obtain ⟨c, rfl⟩ : ∃ c, last = [c] := by
      rw [← List.length_eq_one_iff, ← hlast, List.length_drop, ← size_eq]
      omega
    rw [at0_of_drop hlast] at hbyte
    rw [hbyte]
    rfl
  next =>
    obtain ⟨⟨f, j⟩, hfield, h⟩ := except_bind_ok h
    split at h
    · cases h
    next hj =>
    cases h
    obtain ⟨hf, tail, htail, rfl⟩ := fieldAt_sound hfield
    refine ⟨⟨hparams, by simpa using hf⟩, hrender (some f) ?_⟩
    obtain rfl : tail = [] := by
      have := congrArg List.length htail
      simp [size_eq] at this hj
      exact List.eq_nil_of_length_eq_zero (by omega)
    rw [← hlast, htail, List.append_nil]
    rfl

/-- The reader of methods takes exactly the texts of methods whose types are well formed. -/
theorem Method.ofText_eq_ok {t : Text} {m : Method} :
    Method.ofText t = .ok m ↔ m.WellFormed ∧ m.render = t :=
  ⟨render_ofText, fun h => ofText_render h.1 h.2⟩

/-! ## Counting words -/

open Bytecode

/-- Counting goes over the rest of a name. -/
theorem argumentWords?_name {name : List UInt8} (h : (';' : UInt8) ∉ name) (rest : List UInt8) :
    argumentWords? .name (name ++ (';' : UInt8) :: rest) =
      (argumentWords? .type rest).map fun (n, rest) => (n + 1, rest) := by
  induction name with
  | nil => rw [List.nil_append, argumentWords?, if_pos (beq_self_eq_true _)]
  | cons b name ih =>
    rw [List.mem_cons, not_or] at h
    rw [List.cons_append, argumentWords?, if_neg (by simpa using Ne.symm h.1), ih h.2]

/-- Behind a bracket everything up to the end of the type counts for one word. -/
theorem argumentWords?_element {e : Element} (h : e.WellFormed) (n : Nat) (rest : List UInt8) :
    argumentWords? .element (List.replicate n ('[' : UInt8) ++ (e.render.toList ++ rest)) =
      (argumentWords? .type rest).map fun (n, rest) => (n + 1, rest) := by
  induction n with
  | zero =>
    rw [List.replicate_zero, List.nil_append]
    cases h with
    | @primitive p b hb =>
      have hbracket := BasicType.ne_of_letter? hb (c := '[') (by decide)
      have hL := BasicType.ne_of_letter? hb (c := 'L') (by decide)
      rw [Element.toList_render_primitive hb, List.singleton_append, argumentWords?,
        if_neg (by simpa using hbracket), if_neg (by simpa using hL)]
    | @cls name hname hsemicolon =>
      rw [Element.toList_render_cls, List.cons_append, argumentWords?, if_neg (by decide),
        if_pos (by decide), List.append_assoc]
      exact argumentWords?_name hsemicolon rest
  | succ n ih => rw [List.replicate_succ, List.cons_append, argumentWords?, if_pos (by simp), ih]

/-- The words of a value by the letter of its type. -/
theorem slots_primitive {p : BasicType} {b : UInt8} (h : p.letter? = some b) :
    Field.slots ⟨.primitive p, 0⟩ =
      if b == ('J' : UInt8) || b == ('D' : UInt8) then 2 else 1 := by
  have hall : ∀ q ∈ BasicType.letters, Field.slots ⟨.primitive q.2, 0⟩ =
      if q.1 == ('J' : UInt8) || q.1 == ('D' : UInt8) then 2 else 1 := by decide
  obtain ⟨q, hq, hb⟩ := Option.map_eq_some_iff.mp h
  have hp : q.2 = p := by simpa using List.find?_some hq
  rw [← hb, ← hp]
  exact hall q (List.mem_of_find?_eq_some hq)

/-- A type counts for the words that its values take. -/
theorem argumentWords?_field {f : Field} (h : f.element.WellFormed) (rest : List UInt8) :
    argumentWords? .type (f.render.toList ++ rest) =
      (argumentWords? .type rest).map fun (n, rest) => (n + f.slots, rest) := by
  obtain ⟨element, depth⟩ := f
  rw [Field.toList_render, List.append_assoc]
  cases depth with
  | zero =>
    rw [List.replicate_zero, List.nil_append]
    cases h with
    | @primitive p b hb =>
      have hclose := BasicType.ne_of_letter? hb (c := ')') (by decide)
      have hbracket := BasicType.ne_of_letter? hb (c := '[') (by decide)
      have hL := BasicType.ne_of_letter? hb (c := 'L') (by decide)
      rw [Element.toList_render_primitive hb, List.singleton_append, argumentWords?,
        if_neg (by simpa using hclose), if_neg (by simpa using hbracket),
        if_neg (by simpa using hL), slots_primitive hb]
    | @cls name hname hsemicolon =>
      rw [Element.toList_render_cls, List.cons_append, argumentWords?, if_neg (by decide),
        if_neg (by decide), if_pos (by decide), List.append_assoc]
      exact argumentWords?_name hsemicolon rest
  | succ depth =>
    rw [List.replicate_succ, List.cons_append, argumentWords?, if_neg (by decide),
      if_pos (by decide)]
    exact argumentWords?_element h depth rest

/-- The types of the parameters count for the sum of their words. -/
theorem argumentWords?_spelled {fs : List Field} (h : ∀ f ∈ fs, f.element.WellFormed)
    (rest : List UInt8) : argumentWords? .type (spelled fs ++ (')' : UInt8) :: rest) =
      some ((fs.map Field.slots).sum, (')' : UInt8) :: rest) := by
  induction fs with
  | nil => rw [spelled_nil, List.nil_append, argumentWords?, if_pos (beq_self_eq_true _)]; rfl
  | cons f fs ih =>
    obtain ⟨hf, hfs⟩ := List.forall_mem_cons.mp h
    rw [spelled_cons, List.append_assoc, argumentWords?_field hf, ih hfs, Option.map_some,
      List.map_cons, List.sum_cons, Nat.add_comm]

/-- The first letter tells the words of a result. -/
theorem resultWords_resultText {result : Option Field} (h : ∀ f ∈ result, f.element.WellFormed) :
    resultWords (resultText result).head? = (result.map Field.slots).getD 0 := by
  cases result with
  | none => decide
  | some f =>
    obtain ⟨element, depth⟩ := f
    change resultWords (Field.render ⟨element, depth⟩).toList.head? = Field.slots ⟨element, depth⟩
    rw [Field.toList_render]
    cases depth with
    | succ depth => rfl
    | zero =>
      cases h _ rfl with
      | @primitive p b hb =>
        have hV := BasicType.ne_of_letter? hb (c := 'V') (by decide)
        simp only [Element.toList_render_primitive hb]
        rw [slots_primitive hb]
        exact if_neg (by simpa using hV)
      | @cls name _ _ =>
        simp only [Element.toList_render_cls]
        rfl

/-- Counting goes over a whole method. -/
theorem callWords?_render {m : Method} (h : m.WellFormed) :
    callWords? m.render = some (m.paramSlots, m.resultSlots) := by
  rw [callWords?, Method.toList_render, List.tail_cons, argumentWords?_spelled h.1]
  simp only [Option.map_some, List.tail_cons, resultWords_resultText h.2]
  rfl

/-- The reader of method descriptors takes the texts of the grammar and no others, what it reads is
written as the text that was read, and the pass that counts words stays inside such a text and
finds the words of the parameters and of the result. -/
theorem methods_read_and_counted (t : Text) :
    ((∃ m, Method.ofText t = .ok m) ↔ IsMethod t.toList) ∧
      ∀ m, Method.ofText t = .ok m →
        m.render = t ∧ callWords? t = some (m.paramSlots, m.resultSlots) := by
  constructor
  · rw [isMethod_iff]
    exact exists_congr fun m => Method.ofText_eq_ok.trans (and_congr_right fun _ =>
      ⟨congrArg toList, ext_toList⟩)
  · intro m hm
    obtain ⟨hwf, rfl⟩ := Method.ofText_eq_ok.mp hm
    exact ⟨rfl, callWords?_render hwf⟩

/-- The name of a class may hold a parenthesis, a bracket and the letter of a wide type. -/
theorem methods_read_and_counted_nested :
    Method.ofText "([[J[L)[D;IJ)[D" =
        .ok ⟨[⟨.primitive .long, 2⟩, ⟨.cls ")[D", 1⟩, ⟨.primitive .int, 0⟩, ⟨.primitive .long, 0⟩],
          some ⟨.primitive .double, 1⟩⟩ ∧
      IsMethod (toList "([[J[L)[D;IJ)[D") ∧ callWords? "([[J[L)[D;IJ)[D" = some (5, 1) := by
  have hread : Method.ofText "([[J[L)[D;IJ)[D" =
      .ok ⟨[⟨.primitive .long, 2⟩, ⟨.cls ")[D", 1⟩, ⟨.primitive .int, 0⟩, ⟨.primitive .long, 0⟩],
        some ⟨.primitive .double, 1⟩⟩ := by
    refine Method.ofText_eq_ok.mpr ⟨⟨?_, ?_⟩, by decide⟩
    · simp only [List.forall_mem_cons]
      exact ⟨.primitive (b := 'J') (by decide), .cls (by decide) (by decide),
        .primitive (b := 'I') (by decide), .primitive (b := 'J') (by decide), nofun⟩
    · rintro _ ⟨⟩
      exact .primitive (b := 'D') (by decide)
  exact ⟨hread, (methods_read_and_counted _).1.mp ⟨_, hread⟩,
    ((methods_read_and_counted _).2 _ hread).2⟩

end Descriptor
end Javelin
