import Mathlib.Data.List.Forall2
import Javelin.Flow.Inits
import Javelin.Flow.Frame

/-!
# Laws of assignment states

1. Membership in sets of slots.
2. `Inits.Below`, a state that speaks only of slots below a bound.
3. `Inits.Weakens`, what happens to a state where paths join: fewer variables are certain to have a
   value, and more may have one.
4. Which variables are certain to have a value after an assignment, and where paths join.
-/

namespace Javelin.Flow

/-! ## Sets of slots -/

namespace Slots

variable (s t : Slots) (m n : Nat)

@[simp]
theorem contains_empty : Slots.contains {} n = false := by simp [contains]

@[simp]
theorem contains_insert : (s.insert m).contains n = (s.contains n || decide (m = n)) := by
  simp only [contains, insert, Nat.testBit_or, Nat.one_shiftLeft, Nat.testBit_two_pow]

@[simp]
theorem contains_erase : (s.erase m).contains n = (s.contains n && decide (m ≠ n)) := by
  by_cases h : m = n
  · subst h
    unfold erase
    split
    · simp_all [contains, Nat.one_shiftLeft]
    · simp_all
  · unfold erase
    split
    · simp_all [contains, Nat.one_shiftLeft]
    · simp_all

@[simp]
theorem contains_union : (s.union t).contains n = (s.contains n || t.contains n) := by
  simp [contains, union]

@[simp]
theorem contains_inter : (s.inter t).contains n = (s.contains n && t.contains n) := by
  simp [contains, inter]

@[simp]
theorem contains_insertAll (ns : List Nat) :
    (ns.foldl insert s).contains n = (s.contains n || decide (n ∈ ns)) := by
  induction ns generalizing s with
  | nil => simp
  | cons m ns ih =>
    rw [List.foldl_cons, ih, contains_insert]
    grind

/-- A set of slots that are all below a bound. -/
def Below (k : Nat) (s : Slots) : Prop := ∀ n, s.contains n → n < k

end Slots

namespace Inits

/-! ## States below a bound -/

/-- A state that speaks only of slots below a bound. -/
def Below (k : Nat) : Inits → Prop
  | live a p => a.Below k ∧ p.Below k
  | split a b => a.Below k ∧ b.Below k
  | _ => True

variable {k m n : Nat} {ns : List Nat} {s t : Inits}

theorem Below.mono (h : s.Below k) (hk : k ≤ m) : s.Below m := by
  induction s with
  | live a p => exact ⟨fun n hn => by have := h.1 n hn; omega, fun n hn => by
      have := h.2 n hn; omega⟩
  | split a b iha ihb => exact ⟨iha h.1, ihb h.2⟩
  | _ => trivial

theorem Below.join (hs : s.Below k) (ht : t.Below k) : (s.join t).Below k := by
  unfold Inits.join
  split
  · exact ht
  · exact hs
  · exact ht
  · exact hs
  · refine ⟨fun n hn => ?_, fun n hn => ?_⟩
    · simp only [Slots.contains_inter, Bool.and_eq_true] at hn
      exact hs.1 n hn.1
    · simp only [Slots.contains_union, Bool.or_eq_true] at hn
      exact hn.elim (hs.2 n) (ht.2 n)
  · exact hs

theorem Below.unconditional (h : s.Below k) : s.unconditional.Below k := by
  induction s with
  | split a b iha ihb => exact (iha h.1).join (ihb h.2)
  | _ => exact h

theorem Below.merge (hs : s.Below k) (ht : t.Below k) : (s.merge t).Below k :=
  hs.unconditional.join ht.unconditional

theorem Below.whenTrue (h : s.Below k) : s.whenTrue.Below k := by
  cases s with
  | split a b => exact h.1
  | _ => exact h

theorem Below.whenFalse (h : s.Below k) : s.whenFalse.Below k := by
  cases s with
  | split a b => exact h.2
  | _ => exact h

theorem Below.assign (h : s.Below k) (hn : n < k) : (s.assign n).Below k := by
  induction s with
  | live a p =>
    have := h.1
    have := h.2
    refine ⟨fun m hm => ?_, fun m hm => ?_⟩ <;>
      simp only [Slots.contains_insert, Bool.or_eq_true, decide_eq_true_eq] at hm <;>
      grind [Slots.Below]
  | split a b iha ihb => exact ⟨iha h.1, ihb h.2⟩
  | _ => trivial

theorem Below.forget (h : s.Below k) : (s.forget n).Below k := by
  induction s with
  | live a p =>
    refine ⟨fun m hm => h.1 m ?_, fun m hm => h.2 m ?_⟩ <;>
      simp only [Slots.contains_erase, Bool.and_eq_true] at hm <;> exact hm.1
  | split a b iha ihb => exact ⟨iha h.1, ihb h.2⟩
  | _ => trivial

theorem Below.allow (h : s.Below k) (hn : ∀ n ∈ ns, n < k) : (s.allow ns).Below k := by
  induction s with
  | live a p =>
    refine ⟨h.1, fun m hm => ?_⟩
    simp only [Slots.contains_insertAll, Bool.or_eq_true, decide_eq_true_eq] at hm
    exact hm.elim (h.2 m) (hn m)
  | split a b iha ihb => exact ⟨iha h.1, ihb h.2⟩
  | _ => trivial

theorem Below.andThen (hs : s.Below k) (ht : t.Below k) : (s.andThen t).Below k := by
  have := ht.unconditional
  unfold Inits.andThen
  split
  · rename_i heq
    rw [heq] at this
    refine ⟨fun n hn => ?_, fun n hn => ?_⟩ <;>
      simp only [Slots.contains_union, Bool.or_eq_true] at hn
    · exact hn.elim (hs.1 n) (this.1 n)
    · exact hn.elim (hs.2 n) (this.2 n)
  · exact hs

theorem Below.allowFrom (hs : s.Below k) (ht : t.Below k) : (s.allowFrom t).Below k := by
  have := ht.unconditional
  unfold Inits.allowFrom
  split
  · rename_i heq
    rw [heq] at this
    refine ⟨hs.1, fun n hn => ?_⟩
    simp only [Slots.contains_union, Bool.or_eq_true] at hn
    exact hn.elim (hs.2 n) (this.2 n)
  · exact hs

/-! ## Weaker states -/

/-- A state that knows at most what another knows, if a path leads to the other. -/
def Weakens (s t : Inits) : Prop :=
  ∀ a p, s = live a p → ∃ b q, t = live b q ∧ (∀ n, b.contains n → a.contains n) ∧
    ∀ n, p.contains n → q.contains n

theorem Weakens.refl (s : Inits) : s.Weakens s :=
  fun a p h => ⟨a, p, h, fun _ h => h, fun _ h => h⟩

theorem Weakens.trans {u : Inits} (h : s.Weakens t) (h' : t.Weakens u) : s.Weakens u := by
  intro a p hs
  obtain ⟨b, q, ht, hb, hq⟩ := h a p hs
  obtain ⟨c, r, hu, hc, hr⟩ := h' b q ht
  exact ⟨c, r, hu, fun n hn => hb n (hc n hn), fun n hn => hr n (hq n hn)⟩

theorem dead_weakens (s : Inits) : dead.Weakens s := by
  rintro a p ⟨⟩

/-- A path that is joined with another is still covered. -/
theorem weakens_join_left (s t : Inits) : s.Weakens (s.join t) := by
  rintro a p rfl
  cases t with
  | live b q =>
    refine ⟨_, _, rfl, fun n hn => ?_, fun n hn => ?_⟩
    · simp only [Slots.contains_inter, Bool.and_eq_true] at hn
      exact hn.1
    · simp [hn]
  | _ => exact Weakens.refl _ a p rfl

/-- Whether a state depends on no condition. -/
def isFlat : Inits → Bool
  | split .. => false
  | _ => true

theorem weakens_join_right (s t : Inits) (hs : s.isFlat) : t.Weakens (s.join t) := by
  rintro b q rfl
  cases s with
  | live a p =>
    refine ⟨_, _, rfl, fun n hn => ?_, fun n hn => ?_⟩
    · simp only [Slots.contains_inter, Bool.and_eq_true] at hn
      exact hn.2
    · simp [hn]
  | split => simp [isFlat] at hs
  | _ => exact Weakens.refl _ b q rfl

theorem isFlat_join (hs : s.isFlat) (ht : t.isFlat) : (s.join t).isFlat := by
  cases s <;> cases t <;> simp_all [Inits.join, isFlat]

theorem isFlat_unconditional (s : Inits) : s.unconditional.isFlat := by
  induction s with
  | split a b iha ihb => exact isFlat_join iha ihb
  | _ => rfl

theorem weakens_unconditional (s : Inits) : s.Weakens s.unconditional := by
  rintro a p rfl
  exact Weakens.refl _ a p rfl

theorem weakens_merge_left (s t : Inits) : s.Weakens (s.merge t) :=
  (weakens_unconditional s).trans (weakens_join_left _ _)

theorem weakens_merge_right (s t : Inits) : t.Weakens (s.merge t) :=
  (weakens_unconditional t).trans (weakens_join_right _ _ (isFlat_unconditional s))

@[simp]
theorem whenTrue_merge (s t : Inits) : (s.merge t).whenTrue = s.merge t := by
  have := isFlat_join (isFlat_unconditional s) (isFlat_unconditional t)
  unfold merge
  revert this
  cases s.unconditional.join t.unconditional <;> simp [isFlat, whenTrue]

@[simp]
theorem whenFalse_merge (s t : Inits) : (s.merge t).whenFalse = s.merge t := by
  have := isFlat_join (isFlat_unconditional s) (isFlat_unconditional t)
  unfold merge
  revert this
  cases s.unconditional.join t.unconditional <;> simp [isFlat, whenFalse]

theorem weakens_whenTrue (s : Inits) : s.whenTrue.Weakens s.unconditional := by
  cases s with
  | split a b => exact weakens_merge_left a b
  | _ => exact weakens_unconditional _

theorem weakens_whenFalse (s : Inits) : s.whenFalse.Weakens s.unconditional := by
  cases s with
  | split a b => exact weakens_merge_right a b
  | _ => exact weakens_unconditional _

/-! ## What is certain after a step -/

theorem isAssigned_join (hs : s.isFlat) (ht : t.isFlat) :
    (s.join t).isAssigned n = (s.isAssigned n && t.isAssigned n) := by
  cases s <;> cases t <;> simp_all [join, isFlat, isAssigned]

@[simp]
theorem isAssigned_unconditional (s : Inits) : s.unconditional.isAssigned n = s.isAssigned n := by
  induction s with
  | split a b iha ihb =>
    rw [unconditional, isAssigned_join (isFlat_unconditional a) (isFlat_unconditional b), iha, ihb]
    rfl
  | _ => rfl

@[simp]
theorem isAssigned_merge (s t : Inits) :
    (s.merge t).isAssigned n = (s.isAssigned n && t.isAssigned n) := by
  rw [merge, isAssigned_join (isFlat_unconditional s) (isFlat_unconditional t)]
  simp

@[simp]
theorem isAssigned_assign (s : Inits) :
    (s.assign m).isAssigned n = (s.isAssigned n || decide (m = n)) := by
  induction s with
  | split a b iha ihb =>
    simp only [assign, isAssigned, iha, ihb]
    cases decide (m = n) <;> simp
  | live a p => simp [assign, isAssigned]
  | _ => simp [assign, isAssigned]

end Inits

end Javelin.Flow

/-!
# Jumps and the frames around them

`Recorded` says that the frames know of a jump from a state: the frame where the jump ends holds a
state that is at most as strong. `Jump.land` records the jump (`recorded_land`), and what happens to
frames later keeps it so (`Recorded.weaken`).
-/

namespace Javelin.Flow

/-! ## Frames that change -/

/-- A frame whose states speak only of slots below a bound. -/
def Frame.Below (k : Nat) : Frame → Prop
  | .body _ _ returns => returns.Below k
  | .loop _ breaks continues => breaks.Below k ∧ continues.Below k
  | .switch _ breaks yields => breaks.Below k ∧ yields.Below k
  | .labeled _ breaks => breaks.Below k
  | .handlers _ => True
  | .finally _ _ stop => stop.Below k

/-- What may happen to a frame while the walk is inside it: further jumps are recorded, and handlers
are marked. -/
inductive Frame.Weakens : Frame → Frame → Prop
  | body {throws : List TypeId} {any : Bool} {r r' : Inits} :
      r.Weakens r' → Weakens (.body throws any r) (.body throws any r')
  | loop {labels : List Text} {b b' c c' : Inits} :
      b.Weakens b' → c.Weakens c' → Weakens (.loop labels b c) (.loop labels b' c')
  | switch {isExpression : Bool} {b b' y y' : Inits} :
      b.Weakens b' → y.Weakens y' → Weakens (.switch isExpression b y) (.switch isExpression b' y')
  | labeled {label : Text} {b b' : Inits} :
      b.Weakens b' → Weakens (.labeled label b) (.labeled label b')
  | handlers {hs hs' : List Handler} :
      hs.length = hs'.length → Weakens (.handlers hs) (.handlers hs')
  | finally {block : Info} {completes : Bool} {stop : Inits} :
      Weakens (.finally block completes stop) (.finally block completes stop)

namespace Frame

theorem Below.mono {f : Frame} {k m : Nat} (h : f.Below k) (hk : k ≤ m) : f.Below m := by
  cases f with
  | body t x r => exact Inits.Below.mono h hk
  | loop ls b c => exact ⟨h.1.mono hk, h.2.mono hk⟩
  | switch x b y => exact ⟨h.1.mono hk, h.2.mono hk⟩
  | labeled l b => exact Inits.Below.mono h hk
  | handlers hs => trivial
  | «finally» b x s => exact Inits.Below.mono h hk

theorem Weakens.refl (f : Frame) : f.Weakens f := by
  cases f with
  | body t x r => exact .body (.refl r)
  | loop ls b c => exact .loop (.refl b) (.refl c)
  | switch x b y => exact .switch (.refl b) (.refl y)
  | labeled l b => exact .labeled (.refl b)
  | handlers hs => exact .handlers rfl
  | «finally» b x s => exact .finally

theorem Weakens.trans {f g h : Frame} (hf : f.Weakens g) (hg : g.Weakens h) : f.Weakens h := by
  cases hf with
  | body h₁ => cases hg with | body h₂ => exact .body (h₁.trans h₂)
  | loop h₁ h₂ => cases hg with | loop h₃ h₄ => exact .loop (h₁.trans h₃) (h₂.trans h₄)
  | switch h₁ h₂ => cases hg with | switch h₃ h₄ => exact .switch (h₁.trans h₃) (h₂.trans h₄)
  | labeled h₁ => cases hg with | labeled h₂ => exact .labeled (h₁.trans h₂)
  | handlers h₁ => cases hg with | handlers h₂ => exact .handlers (h₁.trans h₂)
  | «finally» => exact hg

end Frame

/-- What may happen to all frames around a point. -/
abbrev FramesWeaken : List Frame → List Frame → Prop := List.Forall₂ Frame.Weakens

theorem FramesWeaken.refl (fs : List Frame) : FramesWeaken fs fs :=
  List.forall₂_same.2 fun f _ => .refl f

theorem FramesWeaken.trans {fs gs hs : List Frame} (h : FramesWeaken fs gs)
    (h' : FramesWeaken gs hs) : FramesWeaken fs hs := by
  induction h generalizing hs with
  | nil => exact h'
  | cons hf _ ih =>
    cases h' with
    | cons hg hgs => exact .cons (hf.trans hg) (ih hgs)

/-! ## Recorded jumps -/

/-- Whether frames know of a jump from a state. A jump without a target goes nowhere, and a final
block that cannot complete ends every jump. -/
def Recorded (j : Jump) (s : Inits) : List Frame → Prop
  | [] => True
  | f :: rest =>
    match f, j with
    | .finally _ completes stop, _ => completes → Recorded j (s.andThen stop) rest
    | .body _ _ returns, .return => s.Weakens returns
    | .body .., _ => True
    | .loop _ breaks _, .break none => s.Weakens breaks
    | .loop labels _ continues, .continue label =>
      if label.all labels.contains then s.Weakens continues else Recorded j s rest
    | .switch true _ yields, .yield => s.Weakens yields
    | .switch true .., .break _ => True
    | .switch true .., .continue _ => True
    | .switch false breaks _, .break none => s.Weakens breaks
    | .labeled name breaks, .break (some label) =>
      if name == label then s.Weakens breaks else Recorded j s rest
    | _, _ => Recorded j s rest

/-- What is recorded stays recorded. -/
theorem Recorded.weaken {j : Jump} {s : Inits} {fs gs : List Frame} (h : Recorded j s fs)
    (hw : FramesWeaken fs gs) : Recorded j s gs := by
  induction hw generalizing s with
  | nil => exact h
  | cons hf _ ih =>
    cases hf with
    | body hr => cases j <;> first | exact Inits.Weakens.trans h hr | exact h
    | loop hb hc =>
      cases j with
      | «break» label =>
        cases label with
        | none => exact h.trans hb
        | some l => exact ih h
      | «continue» label =>
        simp only [Recorded] at h ⊢
        split <;> rename_i hl
        · exact Inits.Weakens.trans (by simpa [hl] using h) hc
        · exact ih (by simpa [hl] using h)
      | _ => exact ih h
    | @switch isExpression _ _ _ _ hb hy =>
      cases isExpression with
      | true =>
        cases j with
        | yield => exact h.trans hy
        | «return» => exact ih h
        | _ => trivial
      | false =>
        cases j with
        | «break» label =>
          cases label with
          | none => exact h.trans hb
          | some l => exact ih h
        | _ => exact ih h
    | labeled hb =>
      cases j with
      | «break» label =>
        cases label with
        | none => exact ih h
        | some l =>
          simp only [Recorded] at h ⊢
          split <;> rename_i hl
          · exact Inits.Weakens.trans (by simpa [hl] using h) hb
          · exact ih (by simpa [hl] using h)
      | _ => exact ih h
    | handlers hl => cases j <;> exact ih h
    | «finally» => cases j <;> exact fun hc => ih (h hc)

/-- What a jump does to the frames. -/
structure Lands (j : Jump) (s : Inits) (k : Nat) (fs gs : List Frame) : Prop where
  recorded : Recorded j s gs
  weaken : FramesWeaken fs gs
  below : ∀ g ∈ gs, g.Below k

theorem Lands.cons {j : Jump} {s t : Inits} {k : Nat} {f : Frame} {fs gs : List Frame}
    (h : Lands j t k fs gs) (hf : f.Below k) (hr : Recorded j t gs → Recorded j s (f :: gs)) :
    Lands j s k (f :: fs) (f :: gs) where
  recorded := hr h.recorded
  weaken := .cons (.refl f) h.weaken
  below := by simpa [hf] using h.below

theorem Lands.here {j : Jump} {s : Inits} {k : Nat} {f g : Frame} {fs : List Frame}
    (hs : ∀ f ∈ fs, f.Below k) (hw : f.Weakens g) (hg : g.Below k)
    (hr : Recorded j s (g :: fs)) : Lands j s k (f :: fs) (g :: fs) where
  recorded := hr
  weaken := .cons hw (FramesWeaken.refl fs)
  below := by simpa [hg] using hs

/-- Landing records the jump. -/
theorem lands_of_land {j : Jump} {s : Inits} {k : Nat} {fs : List Frame} {l : Landing}
    (h : j.land s fs = some l) (hs : s.Below k) (hf : ∀ f ∈ fs, f.Below k) :
    Lands j s k fs l.frames := by
  induction fs generalizing s l with
  | nil => simp [Jump.land] at h
  | cons f fs ih =>
    have hfs : ∀ g ∈ fs, g.Below k := fun g hg => hf g (List.mem_cons_of_mem _ hg)
    have hf : f.Below k := hf f List.mem_cons_self
    -- The frames that a jump of this kind passes.
    have passes : (j.land s fs).map (.under f) = some l →
        (∀ gs, Recorded j s gs → Recorded j s (f :: gs)) → Lands j s k (f :: fs) l.frames := by
      intro h hr
      obtain ⟨l', hl', rfl⟩ := Option.map_eq_some_iff.1 h
      exact (ih hl' hs hfs).cons hf (hr _)
    cases f with
    | «finally» b completes stop =>
      simp only [Jump.land] at h
      split at h <;> rename_i hc
      · obtain ⟨l', hl', rfl⟩ := Option.map_eq_some_iff.1 h
        exact (ih hl' (hs.andThen hf) hfs).cons hf fun hr _ => hr
      · obtain rfl := Option.some.inj h
        exact .here hfs (.refl _) hf fun h' => absurd h' hc
    | body throws any returns =>
      cases j with
      | «return» =>
        obtain rfl := Option.some.inj h
        exact .here hfs (.body (Inits.weakens_merge_left _ _)) (Inits.Below.merge hf hs)
          (Inits.weakens_merge_right _ _)
      | _ => simp [Jump.land] at h
    | loop labels breaks continues =>
      cases j with
      | «break» label =>
        cases label with
        | none =>
          obtain rfl := Option.some.inj h
          exact .here hfs (.loop (Inits.weakens_merge_left _ _) (.refl _)) ⟨hf.1.merge hs, hf.2⟩
            (Inits.weakens_merge_right _ _)
        | some name => exact passes h fun _ hr => hr
      | «continue» label =>
        simp only [Jump.land] at h
        split at h <;> rename_i hl
        · obtain rfl := Option.some.inj h
          refine .here hfs (.loop (.refl _) (Inits.weakens_merge_left _ _)) ⟨hf.1, hf.2.merge hs⟩ ?_
          simpa [Recorded, hl] using Inits.weakens_merge_right _ _
        · exact passes h fun _ hr => by simpa [Recorded, hl] using hr
      | _ => exact passes h fun _ hr => hr
    | switch isExpression breaks yields =>
      cases isExpression with
      | true =>
        cases j with
        | yield =>
          obtain rfl := Option.some.inj h
          exact .here hfs (.switch (.refl _) (Inits.weakens_merge_left _ _)) ⟨hf.1, hf.2.merge hs⟩
            (Inits.weakens_merge_right _ _)
        | «return» => exact passes h fun _ hr => hr
        | _ => simp [Jump.land] at h
      | false =>
        cases j with
        | «break» label =>
          cases label with
          | none =>
            obtain rfl := Option.some.inj h
            exact .here hfs (.switch (Inits.weakens_merge_left _ _) (.refl _))
              ⟨hf.1.merge hs, hf.2⟩ (Inits.weakens_merge_right _ _)
          | some name => exact passes h fun _ hr => hr
        | _ => exact passes h fun _ hr => hr
    | labeled name breaks =>
      cases j with
      | «break» label =>
        cases label with
        | none => exact passes h fun _ hr => hr
        | some label =>
          simp only [Jump.land] at h
          split at h <;> rename_i hl
          · obtain rfl := Option.some.inj h
            refine .here hfs (.labeled (Inits.weakens_merge_left _ _)) (Inits.Below.merge hf hs) ?_
            simpa [Recorded, hl] using Inits.weakens_merge_right _ _
          · exact passes h fun _ hr => by simpa [Recorded, hl] using hr
      | _ => exact passes h fun _ hr => hr
    | handlers hs => cases j <;> exact passes h fun _ hr => hr

/-- A jump without a target needs no record. -/
theorem recorded_of_land_none {j : Jump} {s : Inits} {fs : List Frame}
    (h : j.land s fs = none) : Recorded j s fs := by
  fun_induction Jump.land j s fs <;> simp_all [Recorded]

end Javelin.Flow
