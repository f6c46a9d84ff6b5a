import Mathlib.Data.List.Induction
import Javelin.Library.SourceTree
import Javelin.Proofs.Text.Cutting

/-!
# Clean paths

A clean path below a root is its parts, joined by slashes. The directories above it are its proper
beginnings, as lists of parts and as texts that end before a slash.

1. The parts of a clean path, and that cleaning leaves them alone (`Parts`, `Parts.clean_eq`).
2. The directory of a path (`dir_join`) and all directories above it (`mem_upward`).
3. Which paths lie below a directory (`startsWith_join`).
4. Any path is cleaned to its parts (`clean_parts`), so the directories that are entered for a file
   are those that it lies below (`mem_upward_keyOf`).
-/

namespace Javelin.Path

theorem slash_eq : ((("/" : String) : Text)) = Text.singleton '/' := rfl

/-- A part of a path that names something in its directory. -/
structure IsPart (p : Text) : Prop where
  ne_empty : p.toList ≠ []
  ne_dot : p ≠ "."
  ne_up : p ≠ ".."
  noSlash : ('/' : UInt8) ∉ p.toList

/-- The parts of a clean path in reverse order: `..` stands only at the front of the path. -/
inductive Stack : List Text → Prop
  | nil : Stack []
  | up {ps : List Text} : Stack ps → (∀ q ∈ ps, q = "..") → Stack (".." :: ps)
  | part {p : Text} {ps : List Text} : Stack ps → IsPart p → Stack (p :: ps)

namespace Stack

variable {p : Text} {ps : List Text}

theorem tail (h : Stack (p :: ps)) : Stack ps := by
  cases h with
  | up h _ => exact h
  | part h _ => exact h

theorem noSlash (h : Stack ps) : ∀ q ∈ ps, ('/' : UInt8) ∉ q.toList := by
  induction h with
  | nil => nofun
  | up _ _ ih => exact List.forall_mem_cons.mpr ⟨by decide, ih⟩
  | part _ hp ih => exact List.forall_mem_cons.mpr ⟨hp.noSlash, ih⟩

theorem ne_empty (h : Stack ps) : ∀ q ∈ ps, q.toList ≠ [] := by
  induction h with
  | nil => nofun
  | up _ _ ih => exact List.forall_mem_cons.mpr ⟨by decide, ih⟩
  | part _ hp ih => exact List.forall_mem_cons.mpr ⟨hp.ne_empty, ih⟩

theorem ne_dot (h : Stack ps) : ∀ q ∈ ps, q ≠ "." := by
  induction h with
  | nil => nofun
  | up _ _ ih => exact List.forall_mem_cons.mpr ⟨by decide, ih⟩
  | part _ hp ih => exact List.forall_mem_cons.mpr ⟨hp.ne_dot, ih⟩

/-- Cleaning keeps a clean front. -/
theorem step (h : Stack ps) (isRooted : Bool) (hp : ('/' : UInt8) ∉ p.toList) :
    Stack (step isRooted ps p) := by
  unfold Path.step
  split
  · exact h
  next hname =>
  simp only [Bool.or_eq_true, beq_iff_eq, not_or] at hname
  split
  next hup =>
    obtain rfl := beq_iff_eq.mp hup
    cases h with
    | nil =>
      dsimp only
      split
      · exact .nil
      · exact .up .nil nofun
    | up h hall => exact .up (.up h hall) (List.forall_mem_cons.mpr ⟨rfl, hall⟩)
    | part h hq =>
      dsimp only
      rw [if_neg fun h => hq.ne_up (beq_iff_eq.mp h)]
      exact h
  next hup =>
    refine .part h ⟨fun hempty => hname.1 ((Text.isEmpty_iff p).mpr hempty), hname.2, ?_, hp⟩
    exact fun h => hup (beq_iff_eq.mpr h)

/-- Cleaning leaves a clean path alone. -/
theorem step_eq (h : Stack (p :: ps)) : Path.step false ps p = p :: ps := by
  cases h with
  | up h hall =>
    cases ps with
    | nil => rfl
    | cons q rest => rw [hall q List.mem_cons_self]; rfl
  | part h hp =>
    have hname : ¬ (p.isEmpty || p == ".") = true := by
      rw [Bool.or_eq_true, Text.isEmpty_iff, beq_iff_eq]
      exact not_or.mpr ⟨hp.ne_empty, hp.ne_dot⟩
    unfold Path.step
    rw [if_neg hname, if_neg fun h => hp.ne_up (beq_iff_eq.mp h)]

theorem foldl_reverse (h : Stack ps) : ps.reverse.foldl (Path.step false) [] = ps := by
  induction ps with
  | nil => rfl
  | cons p ps ih =>
    rw [List.reverse_cons, List.foldl_append, ih h.tail]
    exact h.step_eq

end Stack

/-- The parts of a clean path below a root. -/
def Parts (ps : List Text) : Prop := Stack ps.reverse

namespace Parts

variable {p : Text} {ps qs : List Text}

theorem left (h : Parts (ps ++ qs)) : Parts ps := by
  unfold Parts at h ⊢
  rw [List.reverse_append] at h
  generalize qs.reverse = qs at h
  induction qs with
  | nil => exact h
  | cons q qs ih => exact ih h.tail

theorem noSlash (h : Parts ps) : ∀ q ∈ ps, ('/' : UInt8) ∉ q.toList :=
  fun q hq => Stack.noSlash h q (List.mem_reverse.mpr hq)

theorem ne_empty (h : Parts ps) : ∀ q ∈ ps, q.toList ≠ [] :=
  fun q hq => Stack.ne_empty h q (List.mem_reverse.mpr hq)

theorem ne_dot (h : Parts ps) : ∀ q ∈ ps, q ≠ "." :=
  fun q hq => Stack.ne_dot h q (List.mem_reverse.mpr hq)

theorem split_join (h : Parts ps) (hps : ps ≠ []) : (Text.join "/" ps).split '/' = ps :=
  Text.split_join hps h.noSlash

theorem toList_join (h : Parts ps) (hps : ps ≠ []) :
    ∃ b bs, (Text.join "/" ps).toList = b :: bs ∧ b ≠ '/' := by
  obtain ⟨p, qs, rfl⟩ := List.exists_cons_of_ne_nil hps
  obtain ⟨b, bs, hb⟩ := List.exists_cons_of_ne_nil (h.ne_empty p List.mem_cons_self)
  have hslash : b ≠ '/' := fun hslash =>
    h.noSlash p List.mem_cons_self (hb ▸ hslash ▸ List.mem_cons_self)
  rw [Text.toList_join, List.map_cons, hb]
  cases qs with
  | nil => exact ⟨b, bs, by simp, hslash⟩
  | cons q qs => exact ⟨b, _, by rw [List.map_cons, List.intercalate_cons_cons]; rfl, hslash⟩

theorem not_startsWith (h : Parts ps) : (Text.join "/" ps).startsWith "/" = false := by
  rw [← Bool.not_eq_true, Text.startsWith_iff]
  intro hstarts
  cases ps with
  | nil => exact absurd (List.prefix_nil.mp hstarts) (by decide)
  | cons p ps =>
    obtain ⟨b, bs, hb, hslash⟩ := h.toList_join nofun
    rw [hb] at hstarts
    exact hslash (List.cons_prefix_cons.mp hstarts).1.symm

theorem not_isEmpty (h : Parts ps) (hps : ps ≠ []) : (Text.join "/" ps).isEmpty = false := by
  obtain ⟨b, bs, hb, -⟩ := h.toList_join hps
  rw [← Bool.not_eq_true, Text.isEmpty_iff, hb]
  nofun

/-- Cleaning gives the parts of a text that is not rooted. -/
theorem clean_eq {t : Text} (h : Parts ps) (hps : ps ≠ []) (hroot : t.startsWith "/" = false)
    (ht : (t.split '/').foldl (step false) [] = ps.reverse) : clean t = Text.join "/" ps := by
  unfold clean
  simp only [hroot, ht, List.reverse_reverse, h.not_isEmpty hps, Bool.false_eq_true, if_false]

theorem foldl (h : Parts ps) : ps.foldl (step false) [] = ps.reverse := by
  have := Stack.foldl_reverse h
  rwa [List.reverse_reverse] at this

end Parts

variable {ps qs : List Text} {q d : Text}

/-! ## Directories -/

theorem join_concat (hqs : qs ≠ []) (q : Text) :
    Text.join "/" (qs ++ [q]) = Text.join "/" qs ++ "/" ++ q :=
  Text.join_append hqs (by simp)

/-- The directory with the given parts. -/
def directory (ps : List Text) : Text := if ps.isEmpty then "." else Text.join "/" ps

theorem directory_eq (hps : ps ≠ []) : directory ps = Text.join "/" ps :=
  if_neg (by simpa using hps)

/-- A path that ends with a slash is cleaned to the path before. -/
theorem clean_slash (h : Parts ps) (hps : ps ≠ []) :
    clean (Text.join "/" ps ++ "/") = Text.join "/" ps := by
  obtain ⟨b, bs, hb, hslash⟩ := h.toList_join hps
  refine h.clean_eq hps ?_ ?_
  · rw [← Bool.not_eq_true, Text.startsWith_iff, Text.toList_append, hb]
    exact fun hstarts => hslash (List.cons_prefix_cons.mp hstarts).1.symm
  · have hsplit := Text.split_append (Text.join "/" ps) {} '/'
    have hempty : ({} : Text).split '/' = [{}] := by
      rw [← Text.map_toList_inj, Text.toList_split]
      rfl
    have happend : Text.join "/" ps ++ Text.singleton '/' ++ {} = Text.join "/" ps ++ "/" :=
      Text.ext_toList (by simp [slash_eq])
    rw [← happend, hsplit, h.split_join hps, hempty, List.foldl_append, h.foldl]
    rfl

theorem dir_join (h : Parts (qs ++ [q])) : dir (Text.join "/" (qs ++ [q])) = directory qs := by
  have hq : ∀ b ∈ q.toList, (b == '/') = false := fun b hb => by
    have := h.noSlash q (by simp)
    exact beq_eq_false_iff_ne.mpr fun hslash => this (hslash ▸ hb)
  unfold dir
  cases hqs : qs with
  | nil =>
    have hone : Text.join "/" [q] = q := rfl
    rw [List.nil_append, hone, Text.lastIdx?_eq_none hq]
    rfl
  | cons p ps =>
    rw [← hqs]
    have hne : qs ≠ [] := hqs ▸ nofun
    have hlist : (Text.join "/" (qs ++ [q])).toList =
        (Text.join "/" qs).toList ++ ('/' : UInt8) :: q.toList := by
      rw [join_concat hne, Text.toList_append, Text.toList_append, List.append_assoc]
      rfl
    have htake : (Text.join "/" (qs ++ [q])).take ((Text.join "/" qs).toList.length + 1) =
        Text.join "/" qs ++ "/" := by
      apply Text.ext_toList
      rw [Text.toList_take, hlist, Text.toList_append, List.append_cons]
      exact List.take_left' (by simp)
    rw [Text.lastIdx?_eq hlist (by decide) hq]
    dsimp only
    rw [htake, clean_slash h.left hne, directory_eq hne]

theorem join_ne_dot (h : Parts ps) : Text.join "/" ps ≠ "." := by
  intro hdot
  cases hps : ps with
  | nil => exact absurd (hps ▸ hdot) (by decide)
  | cons p rest =>
    have hsplit := h.split_join (hps ▸ nofun)
    have hone : (("." : String) : Text).split '/' = ["."] := by
      rw [← Text.map_toList_inj, Text.toList_split]
      rfl
    rw [hdot, hone] at hsplit
    exact h.ne_dot "." (hsplit ▸ List.mem_cons_self) rfl

theorem join_ne_slash (h : Parts ps) : Text.join "/" ps ≠ "/" := by
  intro hslash
  have := h.not_startsWith
  rw [hslash] at this
  exact absurd this (by decide)

/-- The directories above a directory and itself are the beginnings of its parts. -/
theorem mem_upward (h : Parts qs) {n : Nat} (hn : qs.length ≤ n) :
    d ∈ upward n (directory qs) ↔ ∃ rs, rs ≠ [] ∧ rs <+: qs ∧ d = Text.join "/" rs := by
  induction qs using List.reverseRecOn generalizing n with
  | nil =>
    refine iff_of_false ?_ fun ⟨rs, hrs, hstarts, _⟩ => hrs (List.prefix_nil.mp hstarts)
    cases n <;> exact List.not_mem_nil
  | append_singleton qs q ih =>
    obtain ⟨n, rfl⟩ : ∃ m, n = m + 1 := ⟨n - 1, by simp at hn; omega⟩
    have hstop :
        ¬ (Text.join "/" (qs ++ [q]) == "." || Text.join "/" (qs ++ [q]) == "/") = true := by
      rw [Bool.or_eq_true, beq_iff_eq, beq_iff_eq]
      exact not_or.mpr ⟨join_ne_dot h, join_ne_slash h⟩
    rw [directory_eq (by simp), upward, if_neg hstop, dir_join h, List.mem_cons,
      ih h.left (by simpa using hn)]
    simp only [List.prefix_concat_iff]
    constructor
    · rintro (rfl | ⟨rs, hrs, hstarts, rfl⟩)
      · exact ⟨_, by simp, .inl rfl, rfl⟩
      · exact ⟨rs, hrs, .inr hstarts, rfl⟩
    · rintro ⟨rs, hrs, rfl | hstarts, rfl⟩
      · exact .inl rfl
      · exact .inr ⟨rs, hrs, hstarts, rfl⟩

/-! ## Below a directory -/

/-- A clean path starts with a directory and a slash exactly if the directory is a proper beginning
of its parts. -/
theorem startsWith_join (h : Parts ps) (hps : ps ≠ []) :
    (Text.join "/" ps).startsWith (d ++ "/") = true ↔
      ∃ rs, rs ≠ [] ∧ rs <+: ps ∧ rs ≠ ps ∧ d = Text.join "/" rs := by
  rw [Text.startsWith_iff]
  constructor
  · rintro ⟨rest, hrest⟩
    have hjoin : Text.join "/" ps = d ++ Text.singleton '/' ++ Text.ofList rest :=
      Text.ext_toList (by rw [← hrest]; simp [slash_eq])
    have hsplit := h.split_join hps
    rw [hjoin, Text.split_append] at hsplit
    have hne : d.split '/' ≠ ps := fun heq => by
      rw [heq] at hsplit
      exact Text.split_ne_nil _ _ (List.append_cancel_left (hsplit.trans (List.append_nil ps).symm))
    exact ⟨_, Text.split_ne_nil d '/', ⟨_, hsplit⟩, hne, (Text.join_split d '/').symm⟩
  · rintro ⟨rs, hrs, ⟨us, rfl⟩, hne, rfl⟩
    have hus : us ≠ [] := fun h => hne (by simp [h])
    rw [Text.join_append hrs hus, Text.toList_append]
    exact List.prefix_append ..

theorem length_le_size (h : ∀ q ∈ ps, q.toList ≠ []) : ps.length ≤ (Text.join "/" ps).size := by
  rw [Text.size_eq, Text.toList_join]
  induction ps with
  | nil => exact Nat.le_refl _
  | cons p ps ih =>
    have hp : 0 < p.toList.length := List.length_pos_iff.mpr (h p List.mem_cons_self)
    replace ih := ih fun q hq => h q (List.mem_cons_of_mem p hq)
    cases ps with
    | nil =>
      simp only [List.map_cons, List.map_nil, List.intercalate_singleton, List.length_singleton]
      exact hp
    | cons q qs =>
      rw [List.map_cons, List.intercalate_cons_of_ne_nil (by simp)]
      simp only [List.length_append, List.length_cons] at ih ⊢
      omega

/-- The directories above a clean path are those that it lies below. -/
theorem mem_upward_dir (h : Parts ps) (hps : ps ≠ []) :
    d ∈ upward ((Text.join "/" ps).size + 1) (dir (Text.join "/" ps)) ↔
      (Text.join "/" ps).startsWith (d ++ "/") = true := by
  obtain ⟨qs, q, rfl⟩ : ∃ qs q, ps = qs ++ [q] :=
    ⟨_, _, (List.dropLast_append_getLast hps).symm⟩
  have hlength := length_le_size h.ne_empty
  rw [List.length_append, List.length_singleton] at hlength
  rw [startsWith_join h hps, dir_join h, mem_upward h.left (by omega)]
  simp only [List.prefix_concat_iff]
  constructor
  · rintro ⟨rs, hrs, hstarts, hd⟩
    refine ⟨rs, hrs, .inr hstarts, fun heq => ?_, hd⟩
    have := hstarts.length_le
    simp only [heq, List.length_append, List.length_singleton] at this
    omega
  · rintro ⟨rs, hrs, rfl | hstarts, hne, hd⟩
    · exact absurd rfl hne
    · exact ⟨rs, hrs, hstarts, hd⟩

/-! ## Cleaning -/

theorem stack_foldl (isRooted : Bool) {ts : List Text} (hts : ∀ t ∈ ts, ('/' : UInt8) ∉ t.toList) :
    Stack (ts.foldl (step isRooted) []) := by
  suffices ∀ ps, Stack ps → Stack (ts.foldl (step isRooted) ps) from this [] .nil
  induction ts with
  | nil => exact fun _ h => h
  | cons t ts ih =>
    intro ps h
    exact ih (fun u hu => hts u (List.mem_cons_of_mem t hu)) _
      (h.step isRooted (hts t List.mem_cons_self))

/-- A clean path is its parts, below the root or not; without parts it is `.` or the root. -/
theorem clean_parts (t : Text) : ∃ ps, Parts ps ∧
    (clean t = "/" ++ Text.join "/" ps ∨ ps ≠ [] ∧ clean t = Text.join "/" ps ∨ clean t = ".") := by
  have hstack : Stack ((t.split '/').foldl (step (t.startsWith "/")) []) :=
    stack_foldl _ fun _ hu => Text.not_mem_of_mem_split hu
  unfold clean
  dsimp only
  generalize (t.split '/').foldl (step (t.startsWith "/")) [] = parts at hstack ⊢
  refine ⟨parts.reverse, by rwa [Parts, List.reverse_reverse], ?_⟩
  split
  · exact .inl rfl
  · split
    · exact .inr (.inr rfl)
    next hempty =>
      refine .inr (.inl ⟨fun hparts => hempty ?_, rfl⟩)
      rw [hparts]
      rfl

end Javelin.Path

namespace Javelin.SourceTree

open Javelin.Path

/-- The form under which a path is kept is its parts, unless it has none. -/
theorem keyOf_parts (path : Text) : ∃ ps, Parts ps ∧
    (ps ≠ [] ∧ keyOf path = Text.join "/" ps ∨ keyOf path = "" ∨ keyOf path = ".") := by
  obtain ⟨ps, hparts, hclean⟩ := clean_parts path
  refine ⟨ps, hparts, ?_⟩
  unfold keyOf
  obtain hclean | ⟨hps, hclean⟩ | hclean := hclean
  · have hbody : (clean path).dropStart "/" = Text.join "/" ps := by
      apply Text.ext_toList
      rw [hclean, Text.toList_dropStart, Text.toList_append, if_pos (List.prefix_append ..)]
      exact List.drop_left ..
    rw [hbody]
    cases ps with
    | nil => exact .inr (.inl rfl)
    | cons p ps => exact .inl ⟨nofun, rfl⟩
  · rw [hclean, Text.dropStart, if_neg (Bool.eq_false_iff.mp hparts.not_startsWith)]
    exact .inl ⟨hps, rfl⟩
  · rw [hclean]
    exact .inr (.inr rfl)

/-- The directories that are entered for a file are those that it lies below. -/
theorem mem_upward_keyOf (path d : Text) :
    d ∈ upward ((keyOf path).size + 1) (dir (keyOf path)) ↔
      (keyOf path).startsWith (d ++ "/") = true := by
  obtain ⟨ps, hparts, hkey⟩ := keyOf_parts path
  obtain ⟨hps, hkey⟩ | hkey | hkey := hkey
  · rw [hkey]
    exact mem_upward_dir hparts hps
  -- A path without parts lies below no directory.
  all_goals
    rw [hkey, Text.startsWith_iff, Text.toList_append]
    refine iff_of_false List.not_mem_nil fun hstarts => ?_
    have hslash : (47 : UInt8) ∈ (("/" : String) : Text).toList := by decide
    exact absurd (hstarts.subset (List.mem_append_right _ hslash)) (by decide)

end Javelin.SourceTree

/-!
# Source trees and their changes

A source tree is filled by adding and removing files. What it answers is told by the changes so far.

1. One change: a key of the files (`getElem?_insert`, `getElem?_erase`), the packages
   (`contains_packages_insert`).
2. All changes: the last one of a key decides (`getElem?_changed`); a file enters every directory
   above it (`contains_packages_changed`).
3. What the tree answers (`changed_answers`).
-/

namespace Javelin.SourceTree

-- Only `mem_upward_keyOf` looks into the kept form of a path.
attribute [local irreducible] keyOf

/-! ## One change -/

theorem getElem?_insert (t : SourceTree) (path contents k : Text) :
    (t.insert path contents).files[k]? = if keyOf path = k then some contents else t.files[k]? := by
  simp only [insert, Std.HashMap.getElem?_insert, beq_iff_eq]

theorem getElem?_erase (t : SourceTree) (path k : Text) :
    (t.erase path).files[k]? = if keyOf path = k then none else t.files[k]? := by
  simp only [erase, Std.HashMap.getElem?_erase, beq_iff_eq]

theorem contains_foldl_insert (s : Std.HashSet Text) (ds : List Text) (d : Text) :
    (ds.foldl (·.insert ·) s).contains d = true ↔ d ∈ ds ∨ s.contains d = true := by
  induction ds generalizing s with
  | nil => simp
  | cons e ds ih =>
    rw [List.foldl_cons, ih, Std.HashSet.contains_insert, Bool.or_eq_true, beq_iff_eq,
      List.mem_cons, or_left_comm, or_assoc, eq_comm]

/-- A file enters the directories that it lies below. -/
theorem contains_packages_insert (t : SourceTree) (path contents d : Text) :
    (t.insert path contents).packages.contains d = true ↔
      (keyOf path).startsWith (d ++ "/") = true ∨ t.packages.contains d = true := by
  rw [insert, contains_foldl_insert, mem_upward_keyOf]

theorem mem_paths (t : SourceTree) (k : Text) : k ∈ t.paths ↔ (t.files[k]?).isSome := by
  rw [paths, List.mem_mergeSort, Std.HashMap.mem_keys, Std.HashMap.isSome_getElem?_eq_contains,
    Std.HashMap.contains_iff_mem]

theorem paths_sorted (t : SourceTree) : t.paths.Pairwise fun p q => p.le q = true :=
  List.pairwise_mergeSort Text.le_trans Text.le_total _

theorem paths_nodup (t : SourceTree) : t.paths.Nodup :=
  (List.mergeSort_perm _ _).nodup_iff.mpr Std.HashMap.nodup_keys

/-! ## All changes -/

/-- A change to a source tree. -/
inductive Change where
  | insert (path contents : Text)
  | erase (path : Text)

namespace Change

def path : Change → Text
  | insert path _ => path
  | erase path => path

/-- What the change leaves at its path. -/
def contents? : Change → Option Text
  | insert _ contents => some contents
  | erase _ => none

end Change

def apply (t : SourceTree) : Change → SourceTree
  | .insert path contents => t.insert path contents
  | .erase path => t.erase path

/-- The tree after changes to an empty one. -/
def changed (cs : List Change) : SourceTree := cs.foldl apply {}

/-- What the last change of a kept path leaves there: the contents of the last file that was added
and not removed since. -/
def contentsAt (cs : List Change) (k : Text) : Option Text :=
  (cs.reverse.find? fun c => keyOf c.path == k).bind Change.contents?

variable {cs : List Change}

theorem changed_append (cs : List Change) (c : Change) :
    changed (cs ++ [c]) = (changed cs).apply c := by
  rw [changed, List.foldl_append]
  rfl

theorem getElem?_apply (t : SourceTree) (c : Change) (k : Text) :
    (t.apply c).files[k]? = if keyOf c.path = k then c.contents? else t.files[k]? := by
  cases c with
  | insert path contents => exact getElem?_insert ..
  | erase path => exact getElem?_erase ..

theorem getElem?_changed (cs : List Change) (k : Text) :
    (changed cs).files[k]? = contentsAt cs k := by
  induction cs using List.reverseRecOn with
  | nil => simp [changed, contentsAt]
  | append_singleton cs c ih =>
    rw [changed_append, getElem?_apply, ih, contentsAt, contentsAt, List.reverse_concat,
      List.find?_cons]
    by_cases hk : keyOf c.path = k
    · rw [if_pos hk, beq_iff_eq.mpr hk]
      rfl
    · rw [if_neg hk, beq_eq_false_iff_ne.mpr hk]

/-- A directory is a package if a change ever added a file below it. -/
theorem contains_packages_changed (cs : List Change) (d : Text) :
    (changed cs).packages.contains d = true ↔ ∃ path contents, .insert path contents ∈ cs ∧
      (keyOf path).startsWith (d ++ "/") = true := by
  induction cs using List.reverseRecOn with
  | nil => simp [changed]
  | append_singleton cs c ih =>
    rw [changed_append]
    cases c with
    | insert path contents =>
      rw [apply, contains_packages_insert, ih]
      constructor
      · rintro (hbelow | ⟨path', contents', hmem, hbelow⟩)
        · exact ⟨path, contents, by simp, hbelow⟩
        · exact ⟨path', contents', List.mem_append_left _ hmem, hbelow⟩
      · rintro ⟨path', contents', hmem, hbelow⟩
        rcases List.mem_append.mp hmem with hmem | hmem
        · exact .inr ⟨path', contents', hmem, hbelow⟩
        · cases List.mem_singleton.mp hmem
          exact .inl hbelow
    | erase path =>
      rw [apply, erase, ih]
      simp

theorem exists_insert_of_contentsAt {k : Text} (h : (contentsAt cs k).isSome) :
    ∃ path contents, .insert path contents ∈ cs ∧ keyOf path = k := by
  obtain ⟨contents, hcontents⟩ := Option.isSome_iff_exists.mp h
  obtain ⟨c, hfind, hc⟩ := Option.bind_eq_some_iff.mp hcontents
  have hmem := List.mem_reverse.mp (List.mem_of_find?_eq_some hfind)
  have hkey : keyOf c.path = k :=
    beq_iff_eq.mp (List.find?_some (p := fun c : Change => keyOf c.path == k) hfind)
  cases c with
  | insert path contents => exact ⟨path, contents, hmem, hkey⟩
  | erase path => nomatch hc

/-! ## What the tree answers -/

/-- After any changes to an empty tree, a type is found in the file named after it as the last
change left it, unless it has the name of a member type; the paths are those that hold a file, in
order; and a directory with a file below it is a package, one where no file was ever added below is
not. -/
theorem changed_answers (cs : List Change) :
    let t := changed cs
    (∀ name, let path := Text.join "/" name
      t.find? name = if (Path.base path).any (· == '$') then none
        else (contentsAt cs (path ++ ".java")).map fun c => ⟨path ++ ".java", c⟩) ∧
    (t.paths.Pairwise (fun p q => p.le q = true) ∧ t.paths.Nodup ∧
      ∀ k, k ∈ t.paths ↔ (contentsAt cs k).isSome) ∧
    ∀ parent name, let d := Text.join "/" (parent ++ [name])
      ((∃ k, (contentsAt cs k).isSome ∧ k.startsWith (d ++ "/") = true) →
        t.names.isPackage parent name = true) ∧
      (t.names.isPackage parent name = true → ∃ path contents, .insert path contents ∈ cs ∧
        (keyOf path).startsWith (d ++ "/") = true) := by
  refine ⟨fun name => ?_, ⟨paths_sorted _, paths_nodup _, fun k => ?_⟩, fun parent name => ⟨?_, ?_⟩⟩
  · unfold find?
    dsimp only
    rw [getElem?_changed]
  · rw [mem_paths, getElem?_changed]
  · rintro ⟨k, hk, hbelow⟩
    obtain ⟨path, contents, hmem, rfl⟩ := exists_insert_of_contentsAt hk
    exact (contains_packages_changed cs _).mpr ⟨path, contents, hmem, hbelow⟩
  · exact (contains_packages_changed cs _).mp

/-- The file of a type whose name holds a dollar sign is kept, but the type is not found. -/
theorem dollar_not_found :
    let cs : List Change := [.insert "A$B.java" "class A$B {}"]
    ((changed cs).find? ["A$B"]).isNone = true ∧
      contentsAt cs "A$B.java" = some "class A$B {}" := by
  decide +kernel

end Javelin.SourceTree
