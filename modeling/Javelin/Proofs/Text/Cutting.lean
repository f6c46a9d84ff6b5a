import Mathlib.Data.List.Basic
import Mathlib.Data.List.DropRight
import Mathlib.Data.List.Infix
import Javelin.Proofs.Text.Characters

/-!
# Cutting and joining texts

The pieces of a text and its parts, as lists of bytes, and the order of texts.

1. Searching from the back and cutting (`lastIdx?_eq`, `toList_split`).
2. Joining, the inverse of cutting (`toList_join`, `split_join`, `join_split`).
3. The bytewise order is a total order (`le_trans`, `le_total`).
-/

namespace Javelin.Text

@[simp] theorem toList_take (t : Text) (n : Nat) : (t.take n).toList = t.toList.take n := by
  rw [take, toList_slice, List.drop_zero, Nat.sub_zero]

@[simp] theorem toList_dropStart (t p : Text) : (t.dropStart p).toList =
    if p.toList <+: t.toList then t.toList.drop p.toList.length else t.toList := by
  unfold dropStart
  simp only [startsWith_iff]
  split
  · rw [toList_drop, size_eq]
  · rfl

theorem isEmpty_iff (t : Text) : t.isEmpty = true ↔ t.toList = [] := by
  rw [isEmpty_eq, List.isEmpty_iff]

/-! ## Cutting -/

/-- The last byte with the property, behind which there is none. -/
theorem lastIdx?_eq {t : Text} {p : UInt8 → Bool} {xs ys : List UInt8} {b : UInt8}
    (ht : t.toList = xs ++ b :: ys) (hb : p b = true) (hys : ∀ y ∈ ys, p y = false) :
    t.lastIdx? p = some xs.length := by
  have hgo (n : Nat) (hn : n ≤ ys.length) :
      lastIdx?.go t p (xs.length + 1 + n) = some xs.length := by
    induction n with
    | zero => simp [lastIdx?.go, at0_eq, ht, hb]
    | succ n ih =>
      have hlt : n < ys.length := hn
      have hbyte : t.at0 (xs.length + 1 + n) = ys[n] := by
        simp [at0_eq, ht, Nat.add_assoc, Nat.add_comm 1 n, hlt]
      rw [← Nat.add_assoc, lastIdx?.go, hbyte, hys _ (List.getElem_mem hlt), if_neg nofun]
      exact ih (Nat.le_of_lt hn)
  have := hgo ys.length (Nat.le_refl _)
  rwa [show xs.length + 1 + ys.length = t.size by rw [size_eq, ht]; simp; omega] at this

theorem lastIdx?_eq_none {t : Text} {p : UInt8 → Bool} (h : ∀ b ∈ t.toList, p b = false) :
    t.lastIdx? p = none := by
  have hgo (n : Nat) (hn : n ≤ t.toList.length) : lastIdx?.go t p n = none := by
    induction n with
    | zero => rfl
    | succ n ih =>
      have hlt : n < t.toList.length := hn
      have hbyte : t.at0 n = t.toList[n] := by simp [at0_eq, hlt]
      rw [lastIdx?.go, hbyte, h _ (List.getElem_mem hlt), if_neg nofun]
      exact ih (Nat.le_of_lt hn)
  exact hgo _ (Nat.le_refl _)

/-- The run of bytes with the property that starts at an offset. -/
theorem skipWhile_eq (t : Text) (p : UInt8 → Bool) (i : Nat) :
    t.skipWhile p i = i + ((t.toList.drop i).takeWhile p).length := by
  fun_induction skipWhile t p i with
  | case1 i h hp ih =>
    have hlt : i < t.toList.length := h
    rw [ih, List.drop_eq_getElem_cons hlt, List.takeWhile_cons_of_pos (by exact hp),
      List.length_cons]
    omega
  | case2 i h hp =>
    have hlt : i < t.toList.length := h
    rw [List.drop_eq_getElem_cons hlt, List.takeWhile_cons_of_neg (by exact hp)]
    rfl
  | case3 i h =>
    rw [List.drop_of_length_le (show t.toList.length ≤ i from Nat.le_of_not_lt h)]
    rfl

theorem toList_split_go (t : Text) (b : UInt8) (n i : Nat) (hi : i ≤ t.toList.length)
    (hn : t.toList.length < i + n) :
    (split.go t b n i).map toList = (t.toList.drop i).splitOn b := by
  induction n generalizing i with
  | zero => omega
  | succ n ih =>
    have hrest := List.takeWhile_append_dropWhile (p := (· != b)) (l := t.toList.drop i)
    have hrun : ∀ x ∈ (t.toList.drop i).takeWhile (· != b), x ≠ b := fun x hx => by
      simpa using List.all_eq_true.mp List.all_takeWhile x hx
    rw [split.go]
    simp only [skipWhile_eq, size_eq]
    generalize (t.toList.drop i).takeWhile (· != b) = run at hrest hrun ⊢
    cases htail : (t.toList.drop i).dropWhile (· != b) with
    | nil =>
      rw [htail, List.append_nil] at hrest
      have hlength : i + run.length = t.toList.length := by
        rw [hrest, List.length_drop]
        omega
      rw [hlength, if_neg (Nat.lt_irrefl _), List.map_singleton, toList_slice, ← hrest,
        List.take_of_length_le (by omega), List.splitOn_eq_singleton fun h => hrun b h rfl]
    | cons c tail =>
      have hc : c = b := by
        have := List.head?_dropWhile_not (· != b) (t.toList.drop i)
        simpa [htail] using this
      subst hc
      rw [htail] at hrest
      have hlength : i + run.length < t.toList.length := by
        have := congrArg List.length hrest
        rw [List.length_append, List.length_cons, List.length_drop] at this
        omega
      have hdrop : t.toList.drop (i + run.length + 1) = tail := by
        rw [Nat.add_assoc, ← List.drop_drop, ← hrest]
        simp
      rw [if_pos hlength, List.map_cons, ih _ hlength (by omega), hdrop, toList_slice, ← hrest,
        List.splitOn_append_cons_self_of_not_mem fun h => hrun c h rfl]
      simp

/-- Cutting a text cuts its bytes. -/
theorem toList_split (t : Text) (b : UInt8) : (t.split b).map toList = t.toList.splitOn b := by
  rw [split, toList_split_go t b _ 0 (Nat.zero_le _) (by rw [size_eq]; omega), List.drop_zero]

theorem map_toList_inj {ts us : List Text} : ts.map toList = us.map toList ↔ ts = us :=
  (List.map_injective_iff.mpr fun _ _ => ext_toList).eq_iff

theorem not_mem_of_mem_splitOn {b : UInt8} {xs piece : List UInt8} (h : piece ∈ xs.splitOn b) :
    b ∉ piece := by
  induction xs generalizing piece with
  | nil =>
    rw [List.splitOn_nil, List.mem_singleton] at h
    simp [h]
  | cons x xs ih =>
    rw [List.splitOn_cons_eq_if_modifyHead] at h
    split at h
    · rcases List.mem_cons.mp h with rfl | h
      · simp
      · exact ih h
    next hx =>
      cases hpieces : xs.splitOn b with
      | nil => exact absurd hpieces (List.splitOn_ne_nil b xs)
      | cons first rest =>
        rw [hpieces, List.modifyHead_cons] at h
        rcases List.mem_cons.mp h with rfl | h
        · have hfirst : b ∉ first := ih (hpieces ▸ List.mem_cons_self)
          have hne : ¬ b = x := fun h => hx (by simp [h])
          simp [hne, hfirst]
        · exact ih (hpieces ▸ List.mem_cons_of_mem _ h)

theorem not_mem_of_mem_split {b : UInt8} {t piece : Text} (h : piece ∈ t.split b) :
    b ∉ piece.toList :=
  not_mem_of_mem_splitOn (toList_split t b ▸ List.mem_map_of_mem h)

theorem split_ne_nil (t : Text) (b : UInt8) : t.split b ≠ [] := fun h =>
  List.splitOn_ne_nil b t.toList (by rw [← toList_split, h, List.map_nil])

/-! ## Joining -/

theorem toList_join (sep : Text) (ts : List Text) :
    (join sep ts).toList = sep.toList.intercalate (ts.map toList) := by
  cases ts with
  | nil => rfl
  | cons t ts =>
    have hfold (acc : Text) : (ts.foldl (fun acc u => acc ++ sep ++ u) acc).toList =
        sep.toList.intercalate (acc.toList :: ts.map toList) := by
      induction ts generalizing acc with
      | nil => simp
      | cons u ts ih =>
        rw [List.foldl_cons, ih, List.map_cons, List.intercalate_cons_cons]
        cases ts <;> simp
    exact hfold t

theorem join_append {sep : Text} {ts us : List Text} (ht : ts ≠ []) (hu : us ≠ []) :
    join sep (ts ++ us) = join sep ts ++ sep ++ join sep us := by
  apply ext_toList
  rw [toList_join, toList_append, toList_append, toList_join, toList_join, List.map_append]
  induction ts with
  | nil => exact absurd rfl ht
  | cons t ts ih =>
    cases ts with
    | nil => simp [List.intercalate_cons_of_ne_nil (show us.map toList ≠ [] by simpa using hu)]
    | cons t' ts =>
      rw [List.map_cons, List.cons_append, List.intercalate_cons_of_ne_nil (by simp), ih nofun]
      simp

/-- Cutting undoes joining, unless a part holds the separator. -/
theorem split_join {b : UInt8} {ts : List Text} (ht : ts ≠ []) (hb : ∀ t ∈ ts, b ∉ t.toList) :
    (join (singleton b) ts).split b = ts := by
  rw [← map_toList_inj, toList_split, toList_join]
  refine List.splitOn_intercalate b (fun l hl => ?_) (by simpa using ht)
  obtain ⟨t, ht, rfl⟩ := List.mem_map.mp hl
  exact hb t ht

/-- Joining undoes cutting. -/
theorem join_split (t : Text) (b : UInt8) : join (singleton b) (t.split b) = t :=
  ext_toList (by rw [toList_join, toList_split]; exact List.intercalate_splitOn b)

theorem split_append (t u : Text) (b : UInt8) :
    (t ++ singleton b ++ u).split b = t.split b ++ u.split b := by
  rw [← map_toList_inj, List.map_append, toList_split, toList_split, toList_split, toList_append,
    toList_append, List.append_assoc]
  exact List.splitOn_append_cons_self ..

/-! ## Order -/

theorem compare_go (t u : Text) (n i : Nat) (h : i + n = min t.toList.length u.toList.length) :
    compare.go t u n i = Ord.compare (t.toList.drop i) (u.toList.drop i) := by
  induction n generalizing i with
  | zero =>
    rw [compare.go, size_eq, size_eq]
    obtain hlt | heq | hgt := Nat.lt_trichotomy t.toList.length u.toList.length
    · have hi : i = t.toList.length := by omega
      rw [List.drop_of_length_le (Nat.le_of_eq hi.symm), List.drop_eq_getElem_cons (hi ▸ hlt)]
      exact Nat.compare_eq_lt.mpr hlt
    · rw [List.drop_of_length_le (by omega), List.drop_of_length_le (by omega), heq]
      exact Std.ReflCmp.compare_self
    · have hi : i = u.toList.length := by omega
      rw [List.drop_of_length_le (Nat.le_of_eq hi.symm), List.drop_eq_getElem_cons (hi ▸ hgt)]
      exact Nat.compare_eq_gt.mpr hgt
  | succ n ih =>
    have ht : i < t.toList.length := by omega
    have hu : i < u.toList.length := by omega
    have hbytes : t.at0 i = t.toList[i] ∧ u.at0 i = u.toList[i] := by simp [at0_eq, ht, hu]
    rw [compare.go, hbytes.1, hbytes.2, ih (i + 1) (by omega), List.drop_eq_getElem_cons ht,
      List.drop_eq_getElem_cons hu, List.compare_cons_cons]
    cases Ord.compare t.toList[i] u.toList[i] <;> rfl

/-- Texts are ordered as their lists of bytes. -/
theorem compare_eq (t u : Text) : t.compare u = Ord.compare t.toList u.toList := by
  rw [compare, size_eq, size_eq, compare_go t u _ 0 (by omega)]
  rfl

theorem le_iff (t u : Text) : t.le u = true ↔ (Ord.compare t.toList u.toList).isLE = true := by
  rw [le, compare_eq]
  cases Ord.compare t.toList u.toList <;> decide

theorem le_trans (t u v : Text) (h : t.le u = true) (h' : u.le v = true) : t.le v = true := by
  rw [le_iff] at *
  exact Std.TransCmp.isLE_trans h h'

theorem le_total (t u : Text) : (t.le u || u.le t) = true := by
  have hswap : Ord.compare u.toList t.toList = (Ord.compare t.toList u.toList).swap :=
    Std.OrientedCmp.eq_swap
  rw [Bool.or_eq_true, le_iff, le_iff, hswap]
  cases Ord.compare t.toList u.toList <;> decide

end Javelin.Text

/-!
## Trimming and replacing

What is left of a text without a run of bytes at its end, and with one text in the place of another,
as lists of bytes.
-/

namespace Javelin.Text

theorem toList_trimRight (t : Text) (p : UInt8 → Bool) :
    (t.trimRight p).toList = t.toList.rdropWhile p := by
  have hcut : t.toList.rdropWhile p ++ t.toList.rtakeWhile p = t.toList :=
    List.rdropWhile_append_rtakeWhile
  have hrun : ∀ b ∈ t.toList.rtakeWhile p, (!p b) = false := fun b hb => by
    rw [List.mem_rtakeWhile_imp hb]
    rfl
  unfold trimRight
  rcases List.eq_nil_or_concat' (t.toList.rdropWhile p) with hnil | ⟨front, b, hfront⟩
  · rw [hnil, List.nil_append] at hcut
    rw [hcut] at hrun
    rw [lastIdx?_eq_none hrun, hnil]
    rfl
  · have hb : (!p b) = true := by
      have hlast := List.rdropWhile_last_not p t.toList (by rw [hfront]; simp)
      simpa [hfront] using hlast
    have ht : t.toList = front ++ b :: t.toList.rtakeWhile p := by
      rw [hfront, List.append_assoc] at hcut
      exact hcut.symm
    rw [lastIdx?_eq ht hb hrun, hfront]
    show (t.take (front.length + 1)).toList = front ++ [b]
    rw [toList_take, ht, List.append_cons, List.take_left' (by simp)]

/-- A run of bytes with a property stands before its end. -/
theorem drop_skipWhile (t : Text) (p : UInt8 → Bool) (i : Nat) : t.toList.drop i =
    (t.toList.drop i).takeWhile p ++ t.toList.drop (t.skipWhile p i) := by
  rw [skipWhile_eq, ← List.drop_drop]
  exact List.prefix_append_drop (List.takeWhile_prefix _)

/-- Skipping goes over a run of bytes with the property and stops where the run ends. -/
theorem exists_run (t : Text) (p : UInt8 → Bool) (i : Nat) : ∃ run,
    t.skipWhile p i = i + run.length ∧ t.toList.drop i = run ++ t.toList.drop (i + run.length) ∧
      (∀ b ∈ run, p b = true) ∧ ∀ b ∈ (t.toList.drop (i + run.length)).head?, p b = false := by
  have hsplit := drop_skipWhile t p i
  rw [skipWhile_eq] at hsplit
  refine ⟨_, skipWhile_eq t p i, hsplit, fun b hb => List.mem_takeWhile_imp hb, fun b hb => ?_⟩
  have hrest : t.toList.drop (i + ((t.toList.drop i).takeWhile p).length) =
      (t.toList.drop i).dropWhile p :=
    List.append_cancel_left (hsplit.symm.trans List.takeWhile_append_dropWhile.symm)
  have hhead := List.head?_dropWhile_not p (t.toList.drop i)
  rw [Option.mem_def, hrest] at hb
  simpa [hb] using hhead

/-- A list of bytes with `r` in the place of every `b :: bs`, from the left. -/
def replaced (b : UInt8) (bs r : List UInt8) : List UInt8 → List UInt8
  | [] => []
  | c :: cs =>
    if b :: bs <+: c :: cs then r ++ replaced b bs r (cs.drop bs.length)
    else c :: replaced b bs r cs
termination_by l => l.length

theorem hasAt_eq (t : Text) {p : Text} {i : Nat} (hi : i < t.toList.length) :
    t.hasAt i p = decide (p.toList <+: t.toList.drop i) := by
  rw [Bool.eq_iff_iff, hasAt_iff, decide_eq_true_iff, and_iff_right_iff_imp]
  intro hp
  have hle := hp.length_le
  rw [List.length_drop] at hle
  omega

theorem toList_replace {t p r : Text} {b : UInt8} {bs : List UInt8} (hp : p.toList = b :: bs) :
    (t.replace p r).toList = replaced b bs r.toList t.toList := by
  have hsize : p.size = bs.length + 1 := by rw [size_eq, hp, List.length_cons]
  have hgo (n : Nat) : ∀ (i : Nat) (acc : Text), t.toList.length < i + n →
      (replace.go t p r n i acc).toList =
        acc.toList ++ replaced b bs r.toList (t.toList.drop i) := by
    induction n with
    | zero =>
      intro i acc hn
      rw [List.drop_of_length_le (by omega), replaced, List.append_nil]
      rfl
    | succ n ih =>
      intro i acc hn
      rw [replace.go]
      by_cases hi : i < t.toList.length
      · have hdrop := List.drop_eq_getElem_cons hi
        rw [if_pos (show i < t.size from hi), hasAt_eq t hi, hp, hdrop, replaced]
        by_cases hmatch : b :: bs <+: t.toList[i] :: t.toList.drop (i + 1)
        · rw [if_pos (decide_eq_true hmatch), if_pos hmatch, ih _ _ (by omega), toList_append,
            List.append_assoc, hsize, List.drop_drop, Nat.add_right_comm i 1, Nat.add_assoc]
        · rw [if_neg (by simpa using hmatch), if_neg hmatch, ih _ _ (by omega), toList_push,
            List.append_assoc, at0_of_drop hdrop]
          rfl
      · rw [if_neg (show ¬ i < t.size from hi), List.drop_of_length_le (by omega), replaced,
          List.append_nil]
  rw [replace, hgo _ _ _ (by rw [← size_eq]; omega)]
  rfl

end Javelin.Text
