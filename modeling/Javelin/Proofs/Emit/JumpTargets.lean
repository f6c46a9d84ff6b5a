import Javelin.Emit.Statements
import Javelin.Flow.Statements
import Mathlib.Data.List.Forall2

/-!
# Targets of jumps

The analysis and the generator keep the statements around a point each in their own way: the
analysis as frames, with one frame for each label, and the generator as a stack of scopes, with the
labels at the statement that they stand before. `Encloses` says which frames and which scope belong
to the same statement.

As long as both describe the same statements, a jump that lands has the same target in both, and
runs through the same final blocks (`same_target`).
-/

namespace Javelin.Emit

open Javelin.Flow

/-! ## Statements around a point -/

/-- A statement around a point: its frames, the innermost first, and its scope. -/
abbrev Layer := List Flow.Frame × Option JumpScope

namespace Layer

/-- The frames of statements, the innermost first. -/
def frames (layers : List Layer) : List Flow.Frame := layers.flatMap Prod.fst

/-- The scopes of statements, the innermost first. -/
def scopes (layers : List Layer) : List JumpScope := layers.filterMap Prod.snd

variable (g : List Flow.Frame) (x : Option JumpScope) (layers others : List Layer)

@[simp]
theorem frames_nil : frames [] = [] := rfl

@[simp]
theorem frames_cons : frames ((g, x) :: layers) = g ++ frames layers := rfl

@[simp]
theorem frames_append : frames (layers ++ others) = frames layers ++ frames others :=
  List.flatMap_append

@[simp]
theorem scopes_nil : scopes [] = [] := rfl

@[simp]
theorem scopes_cons : scopes ((g, x) :: layers) = x.toList ++ scopes layers := by
  cases x <;> rfl

@[simp]
theorem scopes_append : scopes (layers ++ others) = scopes layers ++ scopes others :=
  List.filterMap_append

end Layer

/-- The final block that runs when a jump leaves a statement. -/
def JumpScope.finalBlock? (x : JumpScope) : Option Block :=
  match x.cleanup with
  | some (.block b) => some b
  | _ => none

/-- One frame for each label, that of the last label first. -/
def LabelFrames (labels : List Text) (fs : List Flow.Frame) : Prop :=
  List.Forall₂ (fun label f => ∃ breaks, f = Flow.Frame.labeled label breaks)
    labels.reverse fs

/-- The frames and the scope that belong to the same statement. A lock or a resource has no frame,
and clauses without a final block have no scope that matters. -/
inductive Encloses : Layer → Prop
  | loop {x fs breaks continues} (hx : x.kind = .loop) (hc : x.finalBlock? = none)
      (hfs : LabelFrames x.labels fs) : Encloses (.loop x.labels breaks continues :: fs, some x)
  | label {x fs} (hx : x.kind = .label) (hc : x.finalBlock? = none)
      (hfs : LabelFrames x.labels fs) : Encloses (fs, some x)
  | switch {x isExpression breaks yields}
      (hx : x.kind = if isExpression = true then .switchExpr else .switch) (hl : x.labels = [])
      (hc : x.finalBlock? = none) : Encloses ([.switch isExpression breaks yields], some x)
  | handlers {clauses} : Encloses ([.handlers clauses], none)
  | final {x b completes stop} (hx : x.kind = .cleanup) (hl : x.labels = [])
      (hc : x.finalBlock? = some b) : Encloses ([.finally b.info completes stop], some x)
  | other {x} (hx : x.kind = .cleanup) (hl : x.labels = []) (hc : x.finalBlock? = none) :
      Encloses ([], some x)

/-- A jump of the analysis, and the scopes that the generator looks for. A label has a name. -/
inductive Seeks : Jump → (JumpScope → Bool) → Prop
  | break {label : Option Ident} (h : ∀ l ∈ label, l.name.isEmpty = false) :
      Seeks (.break (labelName label)) (isTarget label [.loop, .switch])
  | continue {label : Option Ident} (h : ∀ l ∈ label, l.name.isEmpty = false) :
      Seeks (.continue (labelName label)) (isTarget label [.loop])
  | yield : Seeks .yield (·.kind == .switchExpr)

/-! ## The scopes of a stack -/

/-- Whether a stack holds scopes, the innermost first. -/
def ScopeStack.Holds (s : ScopeStack) (xs : List JumpScope) : Prop :=
  s.height = xs.length ∧ ∀ i, s.get? i = xs.reverse[i]?

namespace ScopeStack

variable {s : ScopeStack} {x : JumpScope} {xs ys zs : List JumpScope} {isTarget : JumpScope → Bool}

theorem Holds.get (h : s.Holds (ys ++ x :: zs)) : s.get? zs.length = some x := by
  simp [h.2]

/-- The search ends at the first scope that is looked for, if no switch expression is before it. -/
theorem Holds.search (h : s.Holds (ys ++ x :: zs)) (hx : isTarget x)
    (hys : ∀ y ∈ ys, isTarget y = false ∧ y.kind ≠ .switchExpr) :
    s.search isTarget s.height = some zs.length := by
  have go : ∀ us vs, ys = us ++ vs → s.search isTarget (vs ++ x :: zs).length = some zs.length := by
    intro us vs hsplit
    induction vs generalizing us with
    | nil => simp [ScopeStack.search, h.get, hx]
    | cons v vs ih =>
      have here : s.Holds (us ++ v :: (vs ++ x :: zs)) := by simpa [hsplit] using h
      have hv := hys v (by simp [hsplit])
      rw [List.cons_append, List.length_cons, ScopeStack.search, here.get]
      simp only [hv.1, Bool.false_eq_true, if_false, beq_iff_eq, hv.2]
      exact ih (us ++ [v]) (by simp [hsplit])
  rw [h.1]
  exact go [] ys rfl

theorem filterMap_range (zs : List JumpScope) :
    (List.range zs.length).filterMap (zs[·]?) = zs := by
  induction zs with
  | nil => rfl
  | cons z zs ih => simpa [List.range_succ_eq_map, List.filterMap_map, Function.comp_def] using ih

/-- The scopes that a jump leaves. -/
theorem Holds.above (h : s.Holds (ys ++ xs)) :
    (s.above xs.length).filterMap s.get? = ys := by
  have places : ∀ i, s.get? (xs.length + i) = ys.reverse[i]? := by
    intro i
    rw [h.2, List.reverse_append, List.getElem?_append_right (by simp)]
    simp
  have height : s.height - xs.length = ys.length := by
    rw [h.1, List.length_append]
    omega
  rw [ScopeStack.above, height, List.filterMap_reverse, List.range'_eq_map_range,
    List.filterMap_map, show ys.length = ys.reverse.length from List.length_reverse.symm]
  simp only [Function.comp_def, places, filterMap_range, List.reverse_reverse]

end ScopeStack

/-! ## Landing -/

section

variable {j : Jump} {s : Inits} {l : Landing} {labels : List Text} {fs rest : List Flow.Frame}
  {x : JumpScope} {isT : JumpScope → Bool}

theorem labelName_eq {label : Option Ident} (h : ∀ l ∈ label, l.name.isEmpty = false) :
    labelName label = label.map Ident.name := by
  cases label with
  | none => rfl
  | some l => simp [labelName, h l rfl, Option.filter]

/-- The frame of a label ends a break with the label and lets every other jump pass. -/
theorem land_label {name : Text} {breaks : Inits}
    (hl : j.land s (.labeled name breaks :: rest) = some l) :
    (j = .break (some name) ∧ ∃ breaks', l = ⟨[], .labeled name breaks' :: rest⟩) ∨
      j ≠ .break (some name) ∧
        ∃ l', j.land s rest = some l' ∧ l = l'.under (.labeled name breaks) := by
  have passes : (j.land s rest).map (.under (.labeled name breaks)) = some l →
      ∃ l', j.land s rest = some l' ∧ l = l'.under (.labeled name breaks) := by
    intro h
    obtain ⟨l', hl', rfl⟩ := Option.map_eq_some_iff.1 h
    exact ⟨l', hl', rfl⟩
  cases j with
  | «break» label =>
    cases label with
    | none => exact .inr ⟨by simp, passes hl⟩
    | some label =>
      simp only [Jump.land, beq_iff_eq] at hl
      split at hl
      · rename_i h
        exact .inl ⟨by rw [h], _, (Option.some.inj hl).symm⟩
      · rename_i h
        exact .inr ⟨by simpa [eq_comm] using h, passes hl⟩
  | _ => exact .inr ⟨by simp, passes hl⟩

/-- The frames of labels end a break with one of the labels and let every other jump pass. -/
theorem land_labels (hfs : LabelFrames labels fs) (hl : j.land s (fs ++ rest) = some l) :
    (∃ label gs, j = .break (some label) ∧ label ∈ labels ∧ LabelFrames labels gs ∧
        l = ⟨[], gs ++ rest⟩) ∨
      (∀ label ∈ labels, j ≠ .break (some label)) ∧
        ∃ l', j.land s rest = some l' ∧ l = { l' with frames := fs ++ l'.frames } := by
  unfold LabelFrames at hfs ⊢
  have mem : ∀ label, label ∈ labels ↔ label ∈ labels.reverse := fun _ => List.mem_reverse.symm
  simp only [mem]
  revert hfs hl
  generalize labels.reverse = names
  intro hfs hl
  induction hfs generalizing l with
  | nil => exact .inr ⟨by simp, l, hl, rfl⟩
  | @cons name f names fs hf hfs ih =>
    obtain ⟨breaks, rfl⟩ := hf
    obtain ⟨rfl, g, rfl⟩ | ⟨hj, l', hl', rfl⟩ := land_label hl
    · exact .inl ⟨name, _ :: fs, rfl, by simp, .cons ⟨g, rfl⟩ hfs, rfl⟩
    · obtain ⟨label, gs, rfl, hlabel, hgs, rfl⟩ | ⟨hj', l'', hl'', rfl⟩ := ih hl'
      · exact .inl ⟨label, _ :: gs, rfl, by simp [hlabel], .cons ⟨breaks, rfl⟩ hgs, rfl⟩
      · refine .inr ⟨?_, l'', hl'', rfl⟩
        simpa [hj] using hj'

/-- Whether a jump goes past a scope. Of the scopes that are looked for it passes only those that a
continue names and that are no loops. -/
def Passes (j : Jump) (isT : JumpScope → Bool) (y : JumpScope) : Prop :=
  y.kind ≠ .switchExpr ∧ (isT y → y.kind = .label ∧ ∃ label ∈ y.labels, j = .continue (some label))

/-- How a jump that lands gets past a statement: it ends there, a final block that does not complete
absorbs it, or it goes on outward. -/
inductive Meets (j : Jump) (isT : JumpScope → Bool) (g : List Flow.Frame) (x : Option JumpScope)
    (rest : List Flow.Frame) : Landing → Prop
  | target {y g'} : x = some y → isT y → Encloses (g', x) → Meets j isT g x rest ⟨[], g' ++ rest⟩
  | absorbed {b stop} : g = [.finally b false stop] → Meets j isT g x rest ⟨[], g ++ rest⟩
  | onward {s l'} : j.land s rest = some l' → (∀ y ∈ x, Passes j isT y) →
      Meets j isT g x rest
        ⟨(x.bind JumpScope.finalBlock?).toList.map Block.info ++ l'.subroutines, g ++ l'.frames⟩

/-- Whether a scope is sought for its labels. -/
def SoughtByLabel (j : Jump) (x : JumpScope) : Prop :=
  ∃ label ∈ x.labels, j = .break (some label) ∨ j = .continue (some label)

/-- What a jump seeks: a scope with its label, or the innermost of some kind. -/
theorem Seeks.sought (hj : Seeks j isT) (x : JumpScope) :
    isT x ↔ SoughtByLabel j x ∨ (j = .break none ∧ (x.kind = .loop ∨ x.kind = .switch)) ∨
      (j = .continue none ∧ x.kind = .loop) ∨ (j = .yield ∧ x.kind = .switchExpr) := by
  cases hj with
  | @«break» label h =>
    rw [labelName_eq h]
    cases label <;> simp [isTarget, SoughtByLabel]
  | @«continue» label h =>
    rw [labelName_eq h]
    cases label <;> simp [isTarget, SoughtByLabel]
  | yield => simp [SoughtByLabel]

/-- Past the labels of a statement that is sought for its labels at most. -/
theorem meets_labels {g : List Flow.Frame} (hj : Seeks j isT) (hc : x.finalBlock? = none)
    (hx : x.kind ≠ .switchExpr) (hfs : LabelFrames x.labels fs)
    (hg : ∀ gs, LabelFrames x.labels gs → Encloses (g ++ gs, some x))
    (hlabel : isT x → SoughtByLabel j x)
    (hcontinue : ∀ label ∈ x.labels, j = .continue (some label) → x.kind = .label)
    (hl : j.land s (fs ++ rest) = some l) :
    Meets j isT (g ++ fs) (some x) rest { l with frames := g ++ l.frames } := by
  obtain ⟨label, gs, rfl, hmem, hgs, rfl⟩ | ⟨hbreak, l', hl', rfl⟩ := land_labels hfs hl
  · have sought : SoughtByLabel (.break (some label)) x := ⟨label, hmem, .inl rfl⟩
    have target : Meets (.break (some label)) isT (g ++ fs) (some x) rest _ :=
      .target rfl ((hj.sought x).2 (.inl sought)) (hg gs hgs)
    simpa using target
  · have passes : Passes j isT x := by
      refine ⟨hx, fun hT => ?_⟩
      obtain ⟨label, hmem, h | h⟩ := hlabel hT
      · exact absurd h (hbreak label hmem)
      · exact ⟨hcontinue label hmem h, label, hmem, h⟩
    have onward : Meets j isT (g ++ fs) (some x) rest _ :=
      .onward hl' (by rintro _ ⟨⟩; exact passes)
    simpa [hc] using onward

theorem meets_layer {g : List Flow.Frame} {x : Option JumpScope} (h : Encloses (g, x))
    (hj : Seeks j isT) (hl : j.land s (g ++ rest) = some l) : Meets j isT g x rest l := by
  cases h with
  | @loop x fs breaks continues hx hc hfs =>
    have kind : x.kind ≠ .switchExpr := by simp [hx]
    -- A jump that the loop itself ends, or one on its way to the labels.
    have ended : ∀ b c, isT x → Meets j isT (.loop x.labels breaks continues :: fs) (some x) rest
        ⟨[], .loop x.labels b c :: fs ++ rest⟩ := fun b c hT => .target rfl hT (.loop hx hc hfs)
    have past : (j.land s (fs ++ rest)).map (.under (.loop x.labels breaks continues)) = some l →
        (isT x → SoughtByLabel j x) → (∀ label ∈ x.labels, j ≠ .continue (some label)) →
        Meets j isT (.loop x.labels breaks continues :: fs) (some x) rest l := by
      intro h hT hcontinue
      obtain ⟨l', hl', rfl⟩ := Option.map_eq_some_iff.1 h
      exact meets_labels (g := [.loop x.labels breaks continues]) hj hc kind hfs
        (fun gs hgs => .loop hx hc hgs) hT (fun label hmem h => absurd h (hcontinue label hmem)) hl'
    have sought := hj.sought x
    cases j with
    | «break» label =>
      cases label with
      | none =>
        obtain rfl := Option.some.inj hl
        exact ended _ _ (sought.2 (by simp [hx]))
      | some label => exact past hl (by simpa [hx] using sought.1) (by simp)
    | «continue» label =>
      simp only [List.cons_append, Jump.land] at hl
      split at hl <;> rename_i h
      · obtain rfl := Option.some.inj hl
        refine ended _ _ (sought.2 ?_)
        cases label with
        | none => simp [hx]
        | some label => exact .inl ⟨label, by simpa using h, .inr rfl⟩
      · cases label with
        | none => simp at h
        | some label =>
          refine past hl (by simpa [hx] using sought.1) ?_
          rintro _ hmem ⟨⟩
          exact h (by simpa using hmem)
    | yield | «return» => exact past hl (by simpa [hx] using sought.1) (by simp)
  | @label x fs hx hc hfs =>
    refine meets_labels (g := []) hj hc (by simp [hx]) hfs (fun gs hgs => .label hx hc hgs)
      (fun hT => ?_) (fun _ _ _ => hx) hl
    simpa [hx] using (hj.sought x).1 hT
  | @switch x isExpression breaks yields hx hl' hc =>
    have sought := hj.sought x
    have ended : ∀ b y, isT x → Meets j isT [.switch isExpression breaks yields] (some x) rest
        ⟨[], [.switch isExpression b y] ++ rest⟩ := fun b y hT => .target rfl hT (.switch hx hl' hc)
    have past : (j.land s rest).map (.under (.switch isExpression breaks yields)) = some l →
        x.kind ≠ .switchExpr → ¬ isT x →
        Meets j isT [.switch isExpression breaks yields] (some x) rest l := by
      intro h hk hT
      obtain ⟨l', hl', rfl⟩ := Option.map_eq_some_iff.1 h
      have onward : Meets j isT [.switch isExpression breaks yields] (some x) rest _ :=
        .onward hl' (by rintro _ ⟨⟩; exact ⟨hk, fun h => absurd h hT⟩)
      simpa [hc, Landing.under] using onward
    have unlabeled : ¬ SoughtByLabel j x := by simp [SoughtByLabel, hl']
    cases isExpression with
    | true =>
      have hx : x.kind = .switchExpr := hx
      cases j with
      | «break» | «continue» => cases hl
      | yield =>
        obtain rfl := Option.some.inj hl
        exact ended _ _ (sought.2 (by simp [hx]))
      | «return» => cases hj
    | false =>
      have hx : x.kind = .switch := hx
      cases j with
      | «break» label =>
        cases label with
        | none =>
          obtain rfl := Option.some.inj hl
          exact ended _ _ (sought.2 (by simp [hx]))
        | some label => exact past hl (by simp [hx]) (by simpa [sought, hx] using unlabeled)
      | _ => exact past hl (by simp [hx]) (by simpa [sought, hx] using unlabeled)
  | handlers =>
    obtain ⟨l', hl', rfl⟩ := Option.map_eq_some_iff.1 (show (j.land s rest).map _ = some l from hl)
    exact .onward hl' (by simp)
  | @final x b completes stop hx hl' hc =>
    have past : ¬ isT x := by simp [hj.sought x, hx, SoughtByLabel, hl']
    cases completes with
    | false =>
      obtain rfl := Option.some.inj hl
      exact .absorbed rfl
    | true =>
      obtain ⟨l', hl'', rfl⟩ := Option.map_eq_some_iff.1
        (show (j.land (s.andThen stop) rest).map _ = some l from hl)
      have onward : Meets j isT [.finally b.info true stop] (some x) rest _ :=
        .onward hl'' (by rintro _ ⟨⟩; exact ⟨by simp [hx], fun h => absurd h past⟩)
      simpa [hc, Landing.under] using onward
  | @other x hx hl' hc =>
    have past : ¬ isT x := by simp [hj.sought x, hx, SoughtByLabel, hl']
    have onward : Meets j isT [] (some x) rest _ :=
      .onward hl (by rintro _ ⟨⟩; exact ⟨by simp [hx], fun h => absurd h past⟩)
    simpa [hc] using onward

/-- The final blocks of statements, the innermost first. -/
def Layer.finalBlocks (layers : List Layer) : List Info :=
  ((Layer.scopes layers).filterMap JumpScope.finalBlock?).map Block.info

/-- Where a jump lands among statements. -/
inductive Lands (j : Jump) (isT : JumpScope → Bool) (layers : List Layer) (base : List Flow.Frame) :
    Landing → Prop
  | target {inside g x g' outside} : layers = inside ++ (g, some x) :: outside → isT x →
      (∀ y ∈ Layer.scopes inside, isT y = false ∧ y.kind ≠ .switchExpr) → Encloses (g', some x) →
      Lands j isT layers base
        ⟨Layer.finalBlocks inside, Layer.frames (inside ++ (g', some x) :: outside) ++ base⟩
  | absorbed {inside b stop x outside} :
      layers = inside ++ ([.finally b false stop], x) :: outside →
      (∀ y ∈ Layer.scopes inside, Passes j isT y) →
      Lands j isT layers base ⟨Layer.finalBlocks inside, Layer.frames layers ++ base⟩

theorem Layer.finalBlocks_cons (g : List Flow.Frame) (x : Option JumpScope) (layers : List Layer) :
    finalBlocks ((g, x) :: layers) =
      (x.bind JumpScope.finalBlock?).toList.map Block.info ++ finalBlocks layers := by
  cases x with
  | none => rfl
  | some x => cases hb : x.finalBlock? <;> simp [finalBlocks, hb]

theorem lands_layers {layers : List Layer} {base : List Flow.Frame} (hn : ∀ x ∈ layers, Encloses x)
    (hd : ((Layer.scopes layers).flatMap JumpScope.labels).Nodup) (hj : Seeks j isT)
    (hbase : ∀ s, j.land s base = none) (hl : j.land s (Layer.frames layers ++ base) = some l) :
    Lands j isT layers base l := by
  induction layers generalizing s l with
  | nil => simp [Layer.frames, hbase] at hl
  | cons layer layers ih =>
    obtain ⟨g, x⟩ := layer
    have hn₀ := hn _ List.mem_cons_self
    rw [Layer.frames_cons, List.append_assoc] at hl
    rw [Layer.scopes_cons, List.flatMap_append] at hd
    cases meets_layer hn₀ hj hl with
    | @target y g' hy hT hg =>
      subst hy
      have whole : Lands j isT ([] ++ (g, some y) :: layers) base _ := .target rfl hT (by simp) hg
      simpa [Layer.finalBlocks] using whole
    | @absorbed b stop hg =>
      have whole : Lands j isT ((g, x) :: layers) base _ :=
        .absorbed (show _ = [] ++ _ by rw [hg, List.nil_append]) (by simp)
      simpa [Layer.finalBlocks] using whole
    | @onward s l' hl' hx =>
      have passes {inside : List Layer} (h : ∀ y ∈ Layer.scopes inside, Passes j isT y) :
          ∀ y ∈ Layer.scopes ((g, x) :: inside), Passes j isT y := by
        intro y hy
        rw [Layer.scopes_cons, List.mem_append, Option.mem_toList] at hy
        exact hy.elim (hx y) (h y)
      cases ih (fun y hy => hn y (List.mem_cons_of_mem _ hy)) (List.nodup_append.1 hd).2.1 hl' with
      | @absorbed inside b stop y outside h hp =>
        have whole : Lands j isT ((g, x) :: layers) base _ :=
          .absorbed (show _ = ((g, x) :: inside) ++ _ by rw [h, List.cons_append]) (passes hp)
        simpa [Layer.finalBlocks_cons] using whole
      | @target inside g₁ y g' outside h hT hclear hg =>
        subst h
        have clear : ∀ z ∈ Layer.scopes ((g, x) :: inside),
            isT z = false ∧ z.kind ≠ .switchExpr := by
          intro z hz
          rw [Layer.scopes_cons, List.mem_append, Option.mem_toList] at hz
          obtain rfl | hz := hz
          · refine ⟨Bool.eq_false_iff.2 fun hz => ?_, (hx z rfl).1⟩
            -- No two of the statements have the same label.
            obtain ⟨-, label, hlabel, rfl⟩ := (hx z rfl).2 hz
            obtain ⟨label', hlabel', h | h⟩ | ⟨h, -⟩ | ⟨h, -⟩ | ⟨h, -⟩ := (hj.sought y).1 hT
            · cases h
            · obtain rfl : label = label' := by simpa using h
              refine (List.nodup_append.1 hd).2.2 label ?_ label ?_ rfl
              · simpa using hlabel
              · simp [hlabel']
            all_goals cases h
          · exact hclear z hz
        have whole : Lands j isT ((g, x) :: inside ++ (g₁, some y) :: outside) base _ :=
          .target rfl hT clear hg
        simpa [Layer.finalBlocks_cons] using whole

end

/-! ## The same target -/

/-- A jump that lands in the analysis ends at the statement that the search of the generator finds,
and runs through the final blocks of the scopes that the generator leaves, in the same order. If a
final block does not complete, the jump may end there: it has passed the statements inside of the
block, and has run through their final blocks. The stack must hold the scopes of the statements
around the jump, of which no two have the same label. -/
theorem same_target {layers : List Layer} {outer : List Flow.Frame} {throws : List TypeId}
    {throwsAny : Bool} {returns s : Inits} {stack : ScopeStack} {j : Jump} {isT : JumpScope → Bool}
    {l : Landing} (hn : ∀ x ∈ layers, Encloses x)
    (hd : ((Layer.scopes layers).flatMap JumpScope.labels).Nodup)
    (hs : stack.Holds (Layer.scopes layers)) (hj : Seeks j isT)
    (hl : j.land s (Layer.frames layers ++ .body throws throwsAny returns :: outer) = some l) :
    (∃ inside g g' x outside, layers = inside ++ (g, some x) :: outside ∧
      let n := (Layer.scopes outside).length
      stack.search isT stack.height = some n ∧ stack.get? n = some x ∧ Encloses (g', some x) ∧
        l.frames = Layer.frames (inside ++ (g', some x) :: outside) ++
          .body throws throwsAny returns :: outer ∧
        l.subroutines = ((stack.above (n + 1)).filterMap fun i =>
          (stack.get? i).bind JumpScope.finalBlock?).map Block.info) ∨
      ∃ inside b stop x outside, layers = inside ++ ([.finally b false stop], x) :: outside ∧
        (∀ y ∈ Layer.scopes inside, Passes j isT y) ∧
        l.frames = Layer.frames layers ++ .body throws throwsAny returns :: outer ∧
        l.subroutines = Layer.finalBlocks inside := by
  have base : ∀ s, j.land s (.body throws throwsAny returns :: outer) = none := by
    intro s
    cases hj <;> rfl
  cases lands_layers hn hd hj base hl with
  | @absorbed inside b stop x outside h hp =>
    exact .inr ⟨inside, b, stop, x, outside, h, hp, rfl, rfl⟩
  | @target inside g x g' outside h hT clear hg =>
    subst h
    rw [Layer.scopes_append, Layer.scopes_cons, Option.toList_some, List.singleton_append] at hs
    have left : (stack.above ((Layer.scopes outside).length + 1)).filterMap stack.get? =
        Layer.scopes inside := hs.above
    refine .inl ⟨inside, g, g', x, outside, rfl, hs.search hT clear, hs.get, hg, rfl, ?_⟩
    rw [Layer.finalBlocks, ← left, List.filterMap_filterMap]

/-! ## A loop around a final block

A `continue` in the try block of `while (…) { try { continue; } finally {} }`. -/

def sampleFinal : Block := ⟨{ id := 1 }, []⟩

def sampleLoop : JumpScope := { kind := .loop, continueTo := 1 }

def sampleTry : JumpScope := { kind := .cleanup, cleanup := some (.block sampleFinal) }

def sampleLayers : List Layer :=
  [([.finally sampleFinal.info true .start], some sampleTry),
    ([.loop [] .dead .dead], some sampleLoop)]

def sampleStack : ScopeStack := (ScopeStack.push {} sampleLoop).push sampleTry

theorem holds_sampleStack : sampleStack.Holds (Layer.scopes sampleLayers) := by
  refine ⟨rfl, fun i => ?_⟩
  match i with
  | 0 => rfl
  | 1 => rfl
  | i + 2 => rfl

theorem sampleLayers_enclose : ∀ x ∈ sampleLayers, Encloses x := by
  simp only [sampleLayers, List.mem_cons, List.not_mem_nil, or_false, forall_eq_or_imp, forall_eq]
  exact ⟨.final rfl rfl rfl, .loop (x := sampleLoop) rfl rfl List.Forall₂.nil⟩

theorem same_target_continue :
    ∃ n, sampleStack.search (isTarget none [.loop]) sampleStack.height = some n ∧
      [sampleFinal.info] = ((sampleStack.above (n + 1)).filterMap fun i =>
        (sampleStack.get? i).bind JumpScope.finalBlock?).map Block.info := by
  obtain ⟨_, _, _, _, _, _, found, _, _, _, ran⟩ | ⟨inside, b, stop, x, outside, h, -⟩ :=
    @same_target sampleLayers [] [] false .dead .start sampleStack (.continue none)
      (isTarget none [.loop]) _ sampleLayers_enclose (by simp [sampleLayers, sampleTry, sampleLoop])
      holds_sampleStack (@Seeks.continue none (by simp)) rfl
  · exact ⟨_, found, ran⟩
  · have : ([.finally b false stop], x) ∈ sampleLayers := by simp [h]
    simp [sampleLayers] at this

end Javelin.Emit
