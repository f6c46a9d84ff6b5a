import Javelin.ClassFile.Signature
import Javelin.Proofs.Text.Cutting

/-!
# The spelling of generic signatures

The reader of signatures is a recursive descent. `Spells` is the grammar it follows, with the trees
that it gives: an enclosing class is part of the tree if it has arguments or is enclosed itself.

1. `Spells`, the text of a signature and of its parts.
2. Runs of the readers of single bytes and names.
3. `Spells.reads`: the readers take the text of a part and give the part back
   (`TypeSig.ofText_spelled`).
-/

namespace Javelin.Signature

/-! ## The grammar -/

/-- A name of one byte or more that holds none of the given bytes. -/
def IsWord (stop : List UInt8) (name : Text) : Prop :=
  name.toList ≠ [] ∧ ∀ b ∈ name.toList, b ∉ stop

instance (stop : List UInt8) (name : Text) : Decidable (IsWord stop name) :=
  inferInstanceAs (Decidable (_ ∧ _))

abbrev IsIdentifier : Text → Prop := IsWord ['.', ';', '[', '/', '<', '>', ':']

/-- An internal name of a class. -/
abbrev IsClassName : Text → Prop := IsWord ['.', ';', '<']

/-- A part of a signature. -/
inductive Piece where
  | type (a : TypeSig)
  /-- A class type without the letter before it and the semicolon behind it. -/
  | cls (c : ClassSig)
  /-- Type arguments in their brackets; no brackets without arguments. -/
  | args (as : List ArgSig)
  | items (as : List ArgSig)
  | item (a : ArgSig)

/-- The text that spells a part of a signature. -/
inductive Spells : Piece → Text → Prop
  | primitive {p : BasicType} {b : UInt8} (h : BasicType.ofLetter? b = some p) :
    Spells (.type (.primitive p)) (.singleton b)
  | variable {name : Text} (h : IsIdentifier name) :
    Spells (.type (.variable name)) ("T" ++ name ++ ";")
  | array {a : TypeSig} {s : Text} (h : Spells (.type a) s) :
    Spells (.type (.array a)) ("[" ++ s)
  | cls {c : ClassSig} {s : Text} (h : Spells (.cls c) s) :
    Spells (.type (.cls c)) ("L" ++ s ++ ";")
  | top {name : Text} {as : List ArgSig} {s : Text} (hname : IsClassName name)
    (h : Spells (.args as) s) : Spells (.cls (.mk name as none)) (name ++ s)
  | nested {c : ClassSig} {name : Text} {as : List ArgSig} {front s : Text}
    (hc : Spells (.cls c) front) (hkept : (c.args.isEmpty && c.outer.isNone) = false)
    (hname : IsIdentifier name) (h : Spells (.args as) s) :
    Spells (.cls (.mk (c.name ++ "$" ++ name) as (some c))) (front ++ ("." ++ name ++ s))
  | bare : Spells (.args []) {}
  | angles {as : List ArgSig} {s : Text} (h : Spells (.items as) s) :
    Spells (.args as) ("<" ++ s ++ ">")
  | nil : Spells (.items []) {}
  | cons {a : ArgSig} {as : List ArgSig} {s r : Text} (h : Spells (.item a) s)
    (hs : Spells (.items as) r) : Spells (.items (a :: as)) (s ++ r)
  | exact {a : TypeSig} {s : Text} (h : Spells (.type a) s) : Spells (.item (.exact a)) s
  | unbounded : Spells (.item .unbounded) "*"
  | upper {a : TypeSig} {s : Text} (h : Spells (.type a) s) : Spells (.item (.upper a)) ("+" ++ s)
  | lower {a : TypeSig} {s : Text} (h : Spells (.type a) s) : Spells (.item (.lower a)) ("-" ++ s)

variable {α β : Type} {t s name : Text} {i j n : Nat} {b : UInt8} {bs rest stop : List UInt8}

/-- A type starts neither like a wildcard nor with the end of the arguments. -/
theorem Spells.type_head {a : TypeSig} (h : Spells (.type a) s) :
    ∃ b tail, s.toList = b :: tail ∧ b ≠ '*' ∧ b ≠ '+' ∧ b ≠ '-' ∧ b ≠ '>' := by
  cases h with
  | @primitive p b h =>
    refine ⟨b, [], rfl, ?_⟩
    refine ⟨?_, ?_, ?_, ?_⟩ <;> (rintro rfl; cases h)
  | @«variable» name =>
    exact ⟨84, name.toList ++ [59], by rw [Text.toList_append, Text.toList_append]; rfl, by decide⟩
  | @array a s => exact ⟨91, s.toList, by rw [Text.toList_append]; rfl, by decide⟩
  | @cls c s =>
    exact ⟨76, s.toList ++ [59], by rw [Text.toList_append, Text.toList_append]; rfl, by decide⟩

theorem Spells.item_head {a : ArgSig} (h : Spells (.item a) s) :
    ∃ b tail, s.toList = b :: tail ∧ b ≠ '>' := by
  cases h with
  | exact h =>
    obtain ⟨b, tail, hs, -, -, -, hb⟩ := h.type_head
    exact ⟨b, tail, hs, hb⟩
  | unbounded => exact ⟨42, [], rfl, by decide⟩
  | @upper a s => exact ⟨43, s.toList, by rw [Text.toList_append]; rfl, by decide⟩
  | @lower a s => exact ⟨45, s.toList, by rw [Text.toList_append]; rfl, by decide⟩

/-! ## Runs of readers -/

theorem drop_after (h : t.toList.drop i = bs ++ rest) : t.toList.drop (i + bs.length) = rest := by
  rw [← List.drop_drop, h, List.drop_left]

theorem length_le_size (h : t.toList.drop i = bs ++ rest) : bs.length ≤ t.size := by
  have hlen := congrArg List.length h
  rw [List.length_drop, List.length_append] at hlen
  rw [Text.size_eq]
  omega

/-- Offsets that are one. -/
theorem ok_at {a : α} (h : i = j) : (Except.ok (a, i) : Except Fault (α × Nat)) = .ok (a, j) := by
  rw [h]

theorem bind_run {r : Reader α} {f : α → Reader β} {a : α} (h : r t i = .ok (a, j)) :
    (r >>= f) t i = f a t j := by
  change Except.bind (r t i) (fun p => f p.1 t p.2) = _
  rw [h]
  rfl

theorem peek_run (h : t.toList.drop i = b :: rest) : peek t i = .ok (b, i) := by
  change Except.ok (t.at0 i, i) = _
  rw [Text.at0_of_drop h]

theorem read_run (t : Text) (i : Nat) : (read : Reader Text) t i = .ok (t, i) := rfl

theorem skip_run (t : Text) (i : Nat) : skip t i = .ok ((), i + 1) := rfl

theorem expect_run (h : t.toList.drop i = b :: rest) : expect b t i = .ok ((), i + 1) := by
  unfold expect
  rw [bind_run (peek_run h)]
  simp only [bne_self_eq_false, Bool.false_eq_true, if_false]
  rfl

theorem word_run {c : Cause} (hname : IsWord stop name)
    (h : t.toList.drop i = name.toList ++ b :: rest) (hb : b ∈ stop) :
    word stop c t i = .ok (name, i + name.toList.length) := by
  have htake : (t.toList.drop i).takeWhile (fun b => !stop.contains b) = name.toList := by
    rw [h, List.takeWhile_append_of_pos (by simpa using hname.2), List.takeWhile_cons_of_neg
      (by simpa using hb), List.append_nil]
  have hend : t.skipWhile (fun b => !stop.contains b) i = i + name.toList.length := by
    rw [Text.skipWhile_eq, htake]
  have hlen := List.length_pos_iff.2 hname.1
  have hslice : t.slice i (i + name.toList.length) = name := by
    apply Text.ext_toList
    rw [Text.toList_slice, h, Nat.add_sub_cancel_left, List.take_left]
  unfold word
  rw [bind_run (read_run t i), bind_run (show (get : Reader Nat) t i = .ok (i, i) from rfl)]
  dsimp only
  rw [hend, if_neg (by rw [beq_iff_eq]; omega), hslice]
  rfl

/-! ## Reading what is spelled -/

/-- A reader of a part takes the bytes of the part. What follows a class type or its arguments is
the end of the type or another nested name; the nested names are counted. -/
def Piece.Reads : Piece → List UInt8 → Prop
  | .type a, bs => ∀ {t : Text} {i n : Nat} {rest : List UInt8},
    t.toList.drop i = bs ++ rest → bs.length < n → typeAt n t i = .ok (a, i + bs.length)
  | .item a, bs => ∀ {t : Text} {i n : Nat} {rest : List UInt8},
    t.toList.drop i = bs ++ rest → bs.length < n → argOf (typeAt n) t i = .ok (a, i + bs.length)
  | .items as, bs => ∀ {t : Text} {i n fuel : Nat} {rest : List UInt8},
    t.toList.drop i = bs ++ 62 :: rest → bs.length < n → bs.length < fuel →
      itemsUntil '>' (argOf (typeAt n)) fuel t i = .ok (as, i + bs.length + 1)
  | .args as, bs => ∀ {t : Text} {i n : Nat} {b : UInt8} {rest : List UInt8},
    t.toList.drop i = bs ++ b :: rest → b = '.' ∨ b = ';' → bs.length ≤ n →
      argsOf (typeAt n) t i = .ok (as, i + bs.length)
  | .cls c, bs => ∀ {t : Text} {i n : Nat} {b : UInt8} {rest : List UInt8},
    t.toList.drop i = bs ++ b :: rest → b = '.' ∨ b = ';' → bs.length ≤ n →
      ∃ name as j j' k, word ['.', ';', '<'] .noClassName t i = .ok (name, j) ∧
        argsOf (typeAt n) t j = .ok (as, j') ∧ k ≤ bs.length ∧
        ∀ fuel, nestedOf (typeAt n) (.mk name as none) (fuel + k) t j' =
          nestedOf (typeAt n) c fuel t (i + bs.length)

namespace Piece

variable {p : BasicType} {a : TypeSig} {c : ClassSig} {x : ArgSig} {as : List ArgSig}
  {front bs' : List UInt8}

theorem reads_primitive (h : BasicType.ofLetter? b = some p) :
    Reads (.type (.primitive p)) [b] := by
  intro t i n rest hdrop hn
  obtain ⟨n, rfl⟩ := Nat.exists_eq_succ_of_ne_zero (Nat.ne_zero_of_lt hn)
  rw [typeAt, bind_run (peek_run hdrop)]
  simp only [h]
  rfl

theorem reads_variable (h : IsIdentifier name) :
    Reads (.type (.variable name)) (84 :: name.toList ++ [59]) := by
  intro t i n rest hdrop hn
  obtain ⟨n, rfl⟩ := Nat.exists_eq_succ_of_ne_zero (Nat.ne_zero_of_lt hn)
  rw [List.append_assoc, List.cons_append] at hdrop
  have hname : t.toList.drop (i + 1) = name.toList ++ 59 :: rest := Text.drop_succ hdrop
  have hword : identifier t (i + 1) = .ok (name, i + 1 + name.toList.length) :=
    word_run h hname (by decide)
  have hend : expect ';' t (i + 1 + name.toList.length) =
      .ok ((), i + 1 + name.toList.length + 1) := expect_run (drop_after hname)
  rw [typeAt, bind_run (peek_run hdrop)]
  change (skip >>= fun _ => identifier >>= fun name => expect ';' >>= fun _ =>
    pure (TypeSig.variable name)) t i = _
  rw [bind_run (skip_run t i), bind_run hword, bind_run hend, List.length_append,
    List.length_cons, List.length_singleton]
  exact ok_at (by omega)

theorem reads_array (h : Reads (.type a) bs) : Reads (.type (.array a)) (91 :: bs) := by
  intro t i n rest hdrop hn
  rw [List.length_cons] at hn
  obtain ⟨n, rfl⟩ := Nat.exists_eq_succ_of_ne_zero (Nat.ne_zero_of_lt hn)
  have helem : t.toList.drop (i + 1) = bs ++ rest := Text.drop_succ hdrop
  rw [typeAt, bind_run (peek_run hdrop)]
  change (skip >>= fun _ => typeAt n >>= fun a => pure (TypeSig.array a)) t i = _
  rw [bind_run (skip_run t i), bind_run (h helem (by omega)), List.length_cons]
  exact ok_at (by omega)

theorem reads_cls (h : Reads (.cls c) bs) : Reads (.type (.cls c)) (76 :: bs ++ [59]) := by
  intro t i n rest hdrop hn
  rw [List.length_append, List.length_cons, List.length_singleton] at hn
  obtain ⟨n, rfl⟩ := Nat.exists_eq_succ_of_ne_zero (Nat.ne_zero_of_lt hn)
  rw [List.append_assoc, List.cons_append] at hdrop
  have hbody : t.toList.drop (i + 1) = bs ++ 59 :: rest := Text.drop_succ hdrop
  have hstart : expect 'L' t i = .ok ((), i + 1) := expect_run hdrop
  have hend : expect ';' t (i + 1 + bs.length) = .ok ((), i + 1 + bs.length + 1) :=
    expect_run (drop_after hbody)
  obtain ⟨name, as, j, j', k, hname, hargs, hk, hnested⟩ := h (n := n) hbody (.inr rfl) (by omega)
  have hsize := length_le_size hbody
  have hc : nestedOf (typeAt n) (.mk name as none) (t.size + 1) t j' =
      .ok (c, i + 1 + bs.length) := by
    rw [show t.size + 1 = t.size - k + 1 + k by omega, hnested, nestedOf,
      bind_run (peek_run (drop_after hbody))]
    rfl
  rw [typeAt, bind_run (peek_run hdrop)]
  change (classOf (typeAt n) >>= fun c => pure (TypeSig.cls c)) t i = _
  have hclass : classOf (typeAt n) t i = .ok (c, i + 1 + bs.length + 1) := by
    unfold classOf
    rw [bind_run hstart, bind_run hname, bind_run hargs, bind_run (read_run t j'), bind_run hc,
      bind_run hend]
    rfl
  rw [bind_run hclass, List.length_append, List.length_cons, List.length_singleton]
  exact ok_at (by omega)

theorem reads_bare : Reads (.args []) [] := by
  intro t i n b rest hdrop hb _
  unfold argsOf
  rw [bind_run (peek_run hdrop), if_pos (by rcases hb with rfl | rfl <;> decide)]
  rfl

theorem reads_angles (h : Reads (.items as) bs) : Reads (.args as) (60 :: bs ++ [62]) := by
  intro t i n b rest hdrop _ hn
  rw [List.length_append, List.length_cons, List.length_singleton] at hn
  rw [List.append_assoc, List.cons_append] at hdrop
  have hitems : t.toList.drop (i + 1) = bs ++ 62 :: (b :: rest) := Text.drop_succ hdrop
  have hsize := length_le_size hitems
  unfold argsOf
  rw [bind_run (peek_run hdrop), if_neg (by decide), bind_run (skip_run t i),
    bind_run (read_run t (i + 1)), h hitems (by omega) (by omega), List.length_append,
    List.length_cons, List.length_singleton]
  exact ok_at (by omega)

theorem reads_nil : Reads (.items []) [] := by
  intro t i n fuel rest hdrop _ hfuel
  obtain ⟨fuel, rfl⟩ := Nat.exists_eq_succ_of_ne_zero (Nat.ne_zero_of_lt hfuel)
  rw [itemsUntil, bind_run (peek_run hdrop)]
  rfl

theorem reads_cons (hhead : ∃ b tail, bs = b :: tail ∧ b ≠ '>') (h : Reads (.item x) bs)
    (hs : Reads (.items as) bs') : Reads (.items (x :: as)) (bs ++ bs') := by
  obtain ⟨b, tail, rfl, hb⟩ := hhead
  intro t i n fuel rest hdrop hn hfuel
  rw [List.length_append, List.length_cons] at hn hfuel
  obtain ⟨fuel, rfl⟩ := Nat.exists_eq_succ_of_ne_zero (Nat.ne_zero_of_lt hfuel)
  rw [List.append_assoc] at hdrop
  rw [itemsUntil, bind_run (peek_run hdrop), if_neg (by simpa using hb),
    bind_run (h hdrop (by rw [List.length_cons]; omega)),
    bind_run (hs (drop_after hdrop) (by omega) (by omega)), List.length_append]
  exact ok_at (by omega)

theorem reads_exact (hhead : ∃ b tail, bs = b :: tail ∧ b ≠ '*' ∧ b ≠ '+' ∧ b ≠ '-')
    (h : Reads (.type a) bs) : Reads (.item (.exact a)) bs := by
  obtain ⟨b, tail, rfl, hstar, hplus, hminus⟩ := hhead
  intro t i n rest hdrop hn
  unfold argOf
  rw [bind_run (peek_run hdrop), if_neg (by simpa using hstar), if_neg (by simpa using hplus),
    if_neg (by simpa using hminus), bind_run (h hdrop hn)]
  rfl

theorem reads_unbounded : Reads (.item .unbounded) [42] := by
  intro t i n rest hdrop _
  unfold argOf
  rw [bind_run (peek_run hdrop), if_pos (by decide)]
  rfl

theorem reads_upper (h : Reads (.type a) bs) : Reads (.item (.upper a)) (43 :: bs) := by
  intro t i n rest hdrop hn
  rw [List.length_cons] at hn
  have htype : t.toList.drop (i + 1) = bs ++ rest := Text.drop_succ hdrop
  unfold argOf
  rw [bind_run (peek_run hdrop), if_neg (by decide), if_pos (by decide), bind_run (skip_run t i),
    bind_run (h htype (by omega)), List.length_cons]
  exact ok_at (by omega)

theorem reads_lower (h : Reads (.type a) bs) : Reads (.item (.lower a)) (45 :: bs) := by
  intro t i n rest hdrop hn
  rw [List.length_cons] at hn
  have htype : t.toList.drop (i + 1) = bs ++ rest := Text.drop_succ hdrop
  unfold argOf
  rw [bind_run (peek_run hdrop), if_neg (by decide), if_neg (by decide), if_pos (by decide),
    bind_run (skip_run t i), bind_run (h htype (by omega)), List.length_cons]
  exact ok_at (by omega)

/-! ### Class types -/

/-- Arguments start with their bracket, if there are any. -/
theorem head_args (rest : List UInt8) (h : Spells (.args as) s) (hb : b = '.' ∨ b = ';') :
    ∃ b' rest', s.toList ++ b :: rest = b' :: rest' ∧ b' ∈ (['.', ';', '<'] : List UInt8) := by
  cases h with
  | bare => exact ⟨b, rest, rfl, by rcases hb with rfl | rfl <;> decide⟩
  | @angles _ s _ =>
    refine ⟨60, s.toList ++ [62] ++ b :: rest, ?_, by decide⟩
    rw [Text.toList_append, Text.toList_append]
    rfl

theorem reads_top (hname : IsClassName name) (has : Spells (.args as) s)
    (h : Reads (.args as) s.toList) :
    Reads (.cls (.mk name as none)) (name.toList ++ s.toList) := by
  intro t i n b rest hdrop hb hn
  rw [List.append_assoc] at hdrop
  rw [List.length_append] at hn
  have hargs : t.toList.drop (i + name.toList.length) = s.toList ++ b :: rest := drop_after hdrop
  obtain ⟨b', rest', hhead, hstop⟩ := head_args rest has hb
  rw [hhead] at hdrop
  refine ⟨name, as, _, _, 0, word_run hname hdrop hstop, h hargs hb (by omega), Nat.zero_le _,
    fun fuel => ?_⟩
  rw [List.length_append, ← Nat.add_assoc]
  rfl

theorem reads_nested (hkept : (c.args.isEmpty && c.outer.isNone) = false)
    (hname : IsIdentifier name) (has : Spells (.args as) s) (hc : Reads (.cls c) front)
    (h : Reads (.args as) s.toList) : Reads (.cls (.mk (c.name ++ "$" ++ name) as (some c)))
      (front ++ (46 :: name.toList ++ s.toList)) := by
  intro t i n b rest hdrop hb hn
  rw [List.append_assoc, List.append_assoc, List.cons_append] at hdrop
  rw [List.length_append, List.length_append, List.length_cons] at hn
  obtain ⟨top, targs, j, j', k, htop, htargs, hk, hnested⟩ :=
    hc (n := n) hdrop (.inl rfl) (by omega)
  have hdot := drop_after hdrop
  have hword : t.toList.drop (i + front.length + 1) = name.toList ++ (s.toList ++ b :: rest) :=
    Text.drop_succ hdot
  have hargs := drop_after hword
  obtain ⟨b', rest', hhead, hstop⟩ := head_args rest has hb
  rw [hhead] at hword
  have hidentifier : identifier t (i + front.length + 1) =
      .ok (name, i + front.length + 1 + name.toList.length) :=
    word_run hname hword (by revert hstop; simp; tauto)
  refine ⟨top, targs, j, j', k + 1, htop, htargs, ?_, fun fuel => ?_⟩
  · rw [List.length_append, List.length_append, List.length_cons]
    omega
  · rw [show fuel + (k + 1) = fuel + 1 + k by omega, hnested, nestedOf, bind_run (peek_run hdot),
      if_neg (by decide), bind_run (skip_run ..), bind_run hidentifier]
    rw [bind_run (h hargs hb (by omega)), if_neg (by simp [hkept]), List.length_append,
      List.length_append, List.length_cons]
    exact congrArg _ (by omega)

end Piece

/-- The readers take the text of a part and give the part back. -/
theorem Spells.reads {x : Piece} (h : Spells x s) : x.Reads s.toList := by
  induction h with
  | primitive h => exact Piece.reads_primitive h
  | «variable» h =>
    rw [Text.toList_append, Text.toList_append]
    exact Piece.reads_variable h
  | array _ ih =>
    rw [Text.toList_append]
    exact Piece.reads_array ih
  | cls _ ih =>
    rw [Text.toList_append, Text.toList_append]
    exact Piece.reads_cls ih
  | top hname h ih =>
    rw [Text.toList_append]
    exact Piece.reads_top hname h ih
  | nested _ hkept hname h hc ih =>
    rw [Text.toList_append, Text.toList_append, Text.toList_append]
    exact Piece.reads_nested hkept hname h hc ih
  | bare => exact Piece.reads_bare
  | angles _ ih =>
    rw [Text.toList_append, Text.toList_append]
    exact Piece.reads_angles ih
  | nil => exact Piece.reads_nil
  | cons h _ ih ihs =>
    rw [Text.toList_append]
    exact Piece.reads_cons h.item_head ih ihs
  | exact h ih =>
    obtain ⟨b, tail, hs, hstar, hplus, hminus, -⟩ := h.type_head
    exact Piece.reads_exact ⟨b, tail, hs, hstar, hplus, hminus⟩ ih
  | unbounded => exact Piece.reads_unbounded
  | upper _ ih =>
    rw [Text.toList_append]
    exact Piece.reads_upper ih
  | lower _ ih =>
    rw [Text.toList_append]
    exact Piece.reads_lower ih

/-- A text that spells a type is read as that type. -/
theorem TypeSig.ofText_spelled {a : TypeSig} (h : Spells (.type a) t) :
    TypeSig.ofText t = .ok a := by
  have hrun : type t 0 = .ok (a, t.size) := by
    unfold type
    have hread := h.reads (t := t) (i := 0) (n := t.size + 1) (List.append_nil _).symm
      (Nat.lt_succ_self _)
    rwa [Nat.zero_add] at hread
  unfold TypeSig.ofText readAll
  rw [hrun]
  change (if t.size != t.size then _ else _ : Except Fault TypeSig) = _
  rw [if_neg (by simp)]
  rfl

end Javelin.Signature
