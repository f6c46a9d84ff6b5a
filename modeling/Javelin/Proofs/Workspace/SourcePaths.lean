import Mathlib.Data.List.Induction
import Javelin.Proofs.Library.SourceTrees
import Javelin.Workspace.Basic

/-!
# The source path of a workspace

A workspace keeps its files by their paths and again on a source path, by their packages. Files of
one package and name in different directories share a key of the source path, and a change to one of
them may take the key from the others.

1. What one change does to the files and to a key of the source path (`files_apply`,
   `sources_apply`).
2. What any changes keep: the source path holds nothing but the contents of files (`Sourced`).
3. Which keys are on the source path after any changes (`sourcePath_changed`).
-/

namespace Javelin.Workspace

-- The key of a file is that of its package, which takes parsing to know.
attribute [local irreducible] keyOf SourceTree.keyOf

/-- A change to the files of a workspace. -/
inductive Change where
  | update (path contents : Text)
  | erase (path : Text)

def apply (w : Workspace) : Change → Workspace
  | .update path contents => w.update path contents
  | .erase path => w.erase path

/-- The workspace after changes. -/
def changed (w : Workspace) (cs : List Change) : Workspace := cs.foldl apply w

/-- The key of the source path that belongs to a file. -/
def keyAt? (w : Workspace) (path : Text) : Option Text :=
  w.files[path]?.map fun f => SourceTree.keyOf f.key

namespace Change

def path : Change → Text
  | update path _ => path
  | erase path => path

/-- What the file holds after the change. -/
def contents? : Change → Option Text
  | update _ contents => some contents
  | erase _ => none

/-- The key of the source path under which the change puts the file. -/
def key? : Change → Option Text
  | update path contents => some (SourceTree.keyOf (keyOf path contents))
  | erase _ => none

/-- The change takes a key off the source path: that of its file before, unless it puts the file
under the same key again. -/
def Takes (w : Workspace) (c : Change) (k : Text) : Prop :=
  c.key? ≠ some k ∧ w.keyAt? c.path = some k

instance (w : Workspace) (c : Change) (k : Text) : Decidable (c.Takes w k) :=
  inferInstanceAs (Decidable (_ ∧ _))

end Change

theorem changed_append (w : Workspace) (cs : List Change) (c : Change) :
    w.changed (cs ++ [c]) = (w.changed cs).apply c := by
  rw [changed, List.foldl_append]
  rfl

/-! ## One change -/

theorem files_update (w : Workspace) (path contents p : Text) :
    (w.update path contents).files[p]? =
      if path = p then some ⟨keyOf path contents, contents⟩ else w.files[p]? := by
  simp only [update, Std.HashMap.getElem?_insert, beq_iff_eq]

theorem files_erase (w : Workspace) (path p : Text) :
    (w.erase path).files[p]? = if path = p then none else w.files[p]? := by
  unfold erase
  cases hold : w.files[path]? with
  | some old => simp only [Std.HashMap.getElem?_erase, beq_iff_eq]
  | none =>
    dsimp only
    split
    next hp => rw [← hp, hold]
    next => rfl

theorem files_apply (w : Workspace) (c : Change) (p : Text) :
    (w.apply c).files[p]? = if c.path = p then
      c.contents?.map fun contents => ⟨keyOf p contents, contents⟩ else w.files[p]? := by
  cases c with
  | update path contents =>
    refine (files_update w path contents p).trans (ite_congr rfl (fun h => ?_) fun _ => rfl)
    rw [Change.contents?, Option.map_some, show path = p from h]
  | erase path => exact files_erase w path p

/-- A change puts a key on the source path, takes it off, or leaves it alone. -/
theorem sources_apply (w : Workspace) (c : Change) (k : Text) :
    (w.apply c).sources.files[k]? = if c.key? = some k then c.contents?
      else if c.Takes w k then none else w.sources.files[k]? := by
  cases c with
  | update path contents =>
    simp only [apply, update, SourceTree.getElem?_insert, Change.key?, Option.some.injEq,
      Change.contents?]
    split
    · rfl
    next hput =>
    have htakes : Change.Takes w (.update path contents) k ↔ w.keyAt? path = some k :=
      and_iff_right fun h => hput (Option.some.inj h)
    simp only [htakes, keyAt?]
    cases hold : w.files[path]? with
    | none => rfl
    | some old =>
      simp only [Option.map_some, Option.some.injEq]
      by_cases hk : SourceTree.keyOf old.key = k
      · have hne : ¬ (old.key == keyOf path contents) = true := fun h =>
          hput (beq_iff_eq.mp h ▸ hk)
        rw [if_neg hne, SourceTree.getElem?_erase]
      · rw [if_neg hk]
        split
        · rfl
        · rw [SourceTree.getElem?_erase, if_neg hk]
  | erase path =>
    have htakes : Change.Takes w (.erase path) k ↔ w.keyAt? path = some k := and_iff_right nofun
    rw [if_neg nofun]
    simp only [htakes, keyAt?, apply, erase]
    cases hold : w.files[path]? with
    | none => rfl
    | some old =>
      simp only [Option.map_some, Option.some.injEq]
      exact SourceTree.getElem?_erase ..

theorem keyAt?_apply (w : Workspace) (c : Change) (p : Text) :
    (w.apply c).keyAt? p = if c.path = p then c.key? else w.keyAt? p := by
  unfold keyAt?
  rw [files_apply]
  split
  next hp =>
    subst hp
    cases c with
    | update path contents => rfl
    | erase path => rfl
  next => rfl

/-! ## Any changes -/

variable {w : Workspace} {c : Change} {cs : List Change} {k : Text}

/-- The source path holds nothing but the contents of files, under their keys. -/
def Sourced (w : Workspace) : Prop :=
  ∀ k contents, w.sources.files[k]? = some contents →
    ∃ (path : Text) (f : File),
      w.files[path]? = some f ∧ SourceTree.keyOf f.key = k ∧ f.contents = contents

theorem Sourced.apply (h : w.Sourced) (c : Change) : (w.apply c).Sourced := by
  intro k contents hk
  rw [sources_apply] at hk
  split at hk
  next hkey =>
    cases c with
    | erase path => nomatch hk
    | update path new =>
      cases hk
      have hfile := (files_update w path contents path).trans (if_pos rfl)
      exact ⟨path, _, hfile, Option.some.inj hkey, rfl⟩
  next hkey =>
  split at hk
  · nomatch hk
  next htakes =>
  obtain ⟨path, f, hf, hkey', hcontents⟩ := h k contents hk
  refine ⟨path, f, ?_, hkey', hcontents⟩
  -- The file of the change has another key, else the change would take the key.
  have hne : c.path ≠ path := by
    rintro rfl
    exact htakes ⟨hkey, by rw [keyAt?, hf, Option.map_some, hkey']⟩
  rw [files_apply, if_neg hne, hf]

theorem Sourced.changed (h : w.Sourced) (cs : List Change) : (w.changed cs).Sourced := by
  induction cs using List.reverseRecOn with
  | nil => exact h
  | append_singleton cs c ih =>
    rw [changed_append]
    exact ih.apply c

/-- Each file has the key of its path and its package. -/
def Keyed (w : Workspace) : Prop :=
  ∀ (path : Text) (f : File), w.files[path]? = some f → f.key = keyOf path f.contents

theorem Keyed.changed (h : w.Keyed) (cs : List Change) : (w.changed cs).Keyed := by
  induction cs using List.reverseRecOn with
  | nil => exact h
  | append_singleton cs c ih =>
    intro path f hf
    rw [changed_append, files_apply] at hf
    split at hf
    · obtain ⟨contents, -, rfl⟩ := Option.map_eq_some_iff.mp hf
      rfl
    · exact ih path f hf

/-- Key `k` was put on the source path by one of the changes, and no later one took it off. -/
def Change.PutAndKept (w : Workspace) (cs : List Change) (k : Text) : Prop :=
  ∃ (i : Nat) (c : Change), cs[i]? = some c ∧ c.key? = some k ∧
    ∀ (j : Nat) (t : Change), i < j → cs[j]? = some t → ¬ t.Takes (w.changed (cs.take j)) k

theorem Change.putAndKept_append (w : Workspace) (cs : List Change) (d : Change) (k : Text) :
    PutAndKept w (cs ++ [d]) k ↔
      d.key? = some k ∨ PutAndKept w cs k ∧ ¬ d.Takes (w.changed cs) k := by
  have hlast : (cs ++ [d])[cs.length]? = some d := by simp
  have hbefore {j : Nat} (hj : j < cs.length) : (cs ++ [d])[j]? = cs[j]? :=
    List.getElem?_append_left hj
  have htake {j : Nat} (hj : j ≤ cs.length) : (cs ++ [d]).take j = cs.take j :=
    List.take_append_of_le_length hj
  have hafter {j : Nat} {t : Change} (h : (cs ++ [d])[j]? = some t) : j ≤ cs.length := by
    have := (List.getElem?_eq_some_iff.mp h).1
    simp at this
    omega
  constructor
  · rintro ⟨i, c, hi, hkey, hkept⟩
    obtain hlt | rfl := Nat.lt_or_eq_of_le (hafter hi)
    · refine .inr ⟨⟨i, c, (hbefore hlt).symm.trans hi, hkey, fun j t hij hj => ?_⟩, ?_⟩
      · have hjlt := (List.getElem?_eq_some_iff.mp hj).1
        exact htake (Nat.le_of_lt hjlt) ▸ hkept j t hij ((hbefore hjlt).trans hj)
      · have := hkept cs.length d hlt hlast
        rwa [htake (Nat.le_refl _), List.take_length] at this
    · cases hlast.symm.trans hi
      exact .inl hkey
  · rintro (hkey | ⟨⟨i, c, hi, hkey, hkept⟩, hd⟩)
    · refine ⟨cs.length, d, hlast, hkey, fun j t hij hj => ?_⟩
      have := hafter hj
      omega
    · have hlt := (List.getElem?_eq_some_iff.mp hi).1
      refine ⟨i, c, (hbefore hlt).trans hi, hkey, fun j t hij hj => ?_⟩
      rw [htake (hafter hj)]
      obtain hjlt | rfl := Nat.lt_or_eq_of_le (hafter hj)
      · exact hkept j t hij ((hbefore hjlt).symm.trans hj)
      · cases hlast.symm.trans hj
        rwa [List.take_length]

theorem isSome_changed (hk : w.sources.files[k]? = none) (cs : List Change) :
    ((w.changed cs).sources.files[k]?).isSome ↔ Change.PutAndKept w cs k := by
  induction cs using List.reverseRecOn with
  | nil => simp [changed, hk, Change.PutAndKept]
  | append_singleton cs d ih =>
    rw [changed_append, sources_apply, Change.putAndKept_append, ← ih]
    split
    next hkey =>
      refine iff_of_true ?_ (.inl hkey)
      cases d with
      | update path contents => rfl
      | erase path => nomatch hkey
    next hkey =>
      split
      next htakes => exact iff_of_false nofun (by simp [hkey, htakes])
      next htakes => simp [hkey, htakes]

/-- No change takes a key that another file has. -/
def Change.Apart (w : Workspace) (cs : List Change) : Prop :=
  ∀ (j : Nat) (t : Change) (k path : Text), cs[j]? = some t →
    t.Takes (w.changed (cs.take j)) k → path ≠ t.path →
    (w.changed (cs.take j)).keyAt? path ≠ some k

theorem isSome_of_keyAt? (hw : w.files = ∅) {cs : List Change} (happart : Change.Apart w cs)
    {path k : Text} (hkey : (w.changed cs).keyAt? path = some k) :
    ((w.changed cs).sources.files[k]?).isSome := by
  induction cs using List.reverseRecOn generalizing path k with
  | nil => simp [changed, keyAt?, hw] at hkey
  | append_singleton cs d ih =>
    have hearlier : Change.Apart w cs := fun j t k path hj => by
      have hlt := (List.getElem?_eq_some_iff.mp hj).1
      have := happart j t k path ((List.getElem?_append_left hlt).trans hj)
      rwa [List.take_append_of_le_length (Nat.le_of_lt hlt)] at this
    have hlast := happart cs.length d k path (by simp)
    rw [List.take_left] at hlast
    rw [changed_append, keyAt?_apply] at hkey
    rw [changed_append, sources_apply]
    split
    next hput =>
      cases d with
      | update p contents => rfl
      | erase p => nomatch hput
    next hput =>
    -- The file is not that of the change, which would put it under its key.
    have hne : d.path ≠ path := fun h => hput (by rwa [if_pos h] at hkey)
    rw [if_neg hne] at hkey
    split
    next htakes => exact absurd hkey (hlast htakes hne.symm)
    next => exact ih hearlier hkey

/-- After any changes to an empty workspace, the source path holds only contents of current files
under their keys. A key is on it exactly if a change put it there and no later change took it off,
so the keys are all those of the files unless a change took a key that another file had. -/
theorem sourcePath_changed (library : NameSource) (options : Compile.Options) (cs : List Change) :
    let empty : Workspace := { library, options }
    let w := empty.changed cs
    (∀ k contents, w.sources.files[k]? = some contents →
      ∃ (path : Text) (f : File),
        w.files[path]? = some f ∧ SourceTree.keyOf f.key = k ∧ f.contents = contents) ∧
    (∀ (path : Text) (f : File), w.files[path]? = some f → f.key = keyOf path f.contents) ∧
    (∀ k, (w.sources.files[k]?).isSome ↔ Change.PutAndKept empty cs k) ∧
    (Change.Apart empty cs →
      ∀ k, (w.sources.files[k]?).isSome ↔ ∃ path, w.keyAt? path = some k) := by
  intro empty w
  have hsourced : w.Sourced := Sourced.changed (fun k contents hk => by simp [empty] at hk) cs
  have hkeyed : w.Keyed := Keyed.changed (fun path f hf => by simp [empty] at hf) cs
  have hkept (k : Text) := isSome_changed (w := empty) (k := k) (by simp [empty]) cs
  refine ⟨hsourced, hkeyed, hkept, fun hapart k => ⟨fun hk => ?_, ?_⟩⟩
  · obtain ⟨contents, hcontents⟩ := Option.isSome_iff_exists.mp hk
    obtain ⟨path, f, hf, hkey, -⟩ := hsourced k contents hcontents
    exact ⟨path, by rw [keyAt?, hf, Option.map_some, hkey]⟩
  · rintro ⟨path, hkey⟩
    exact isSome_of_keyAt? rfl hapart hkey

end Javelin.Workspace
