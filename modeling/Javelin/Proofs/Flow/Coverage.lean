import Javelin.Proofs.Flow.Behavior
import Javelin.Proofs.Flow.Frames

/-!
# Assignment states and stores

`Covers` relates an assignment state to the stores in which a run may be at the point of the state.
Two properties of runs are of concern, and each needs one half of a state: that no variable is read
without a value rests on what is certainly assigned, and that no final variable is assigned twice on
what may be assigned.

1. `Concern`, what it asks of the events of a run, and the problems that are reported instead.
2. `Covers`, and how it goes along with events.
-/

namespace Javelin.Flow

/-- Whether a variable is final. -/
def Program.isFinal (p : Program) : Symbol → Bool
  | .var l => (p.localEntry l).isFinal
  | .field f => (p.fieldEntry f).isFinal
  | _ => false

/-- What a run must not do. -/
inductive Concern where
  /-- Read a local variable that has no value. -/
  | reads
  /-- Assign a final variable that has a value. -/
  | writes
deriving DecidableEq

namespace Concern

/-- Whether an event is in order in a store. -/
def Allows (p : Program) (σ : Store) : Concern → Event → Prop
  | .reads, .read v => σ v ≠ .blank
  | .writes, .write v => p.isFinal v → σ v ≠ .assigned
  | .writes, .store f => p.isFinal (.field f) = false
  | _, _ => True

/-- Whether all events of a run are in order. -/
def Safe (c : Concern) (p : Program) : Store → List Event → Prop
  | _, [] => True
  | σ, e :: es => c.Allows p σ e ∧ c.Safe p (σ.after [e]) es

/-- The problems that are reported where an event may not be in order. -/
def watches : Concern → Problem.Id → Bool
  | .reads, id => id == .uninitializedLocal
  | .writes, id => id == .finalReassignment || id == .finalFieldAssignment

/-- How many such problems were reported. -/
def count (c : Concern) (a : Analysis) : Nat := a.reported.countP c.watches

/-- Whether a variable can have a status if it is certainly assigned or may be. -/
def Agrees (p : Program) (v : Symbol) (assigned potential : Bool) (st : Status) : Concern → Prop
  | .reads => assigned → st ≠ .blank
  | .writes => p.isFinal v → st = .assigned → potential

variable {c : Concern} {p : Program} {σ : Store} {v : Symbol} {es fs : List Event}

@[simp]
theorem safe_nil : c.Safe p σ [] := trivial

theorem safe_append : c.Safe p σ (es ++ fs) ↔ c.Safe p σ es ∧ c.Safe p (σ.after es) fs := by
  induction es generalizing σ with
  | nil => simp
  | cons e es ih =>
    simp only [List.cons_append, Safe, ih, Store.after_cons σ e es]
    exact and_assoc.symm

theorem Safe.append (h : c.Safe p σ es) (h' : c.Safe p (σ.after es) fs) :
    c.Safe p σ (es ++ fs) :=
  safe_append.2 ⟨h, h'⟩

/-- Events at which nothing can go wrong. -/
theorem safe_of_allows (h : ∀ e ∈ es, ∀ σ, c.Allows p σ e) : c.Safe p σ es := by
  induction es generalizing σ with
  | nil => trivial
  | cons e es ih =>
    exact ⟨h e List.mem_cons_self σ, ih fun f hf => h f (List.mem_cons_of_mem _ hf)⟩

theorem safe_leave (vs : List Symbol) : c.Safe p σ (vs.map .leave) := by
  refine safe_of_allows fun e he σ => ?_
  obtain ⟨v, -, rfl⟩ := List.mem_map.1 he
  cases c <;> trivial

theorem safe_enter (vs : List Symbol) : c.Safe p σ (vs.map .enter) := by
  refine safe_of_allows fun e he σ => ?_
  obtain ⟨v, -, rfl⟩ := List.mem_map.1 he
  cases c <;> trivial

/-- What a safe run asks of one of its events. -/
theorem Safe.allows {e : Event} (h : c.Safe p σ (es ++ e :: fs)) : c.Allows p (σ.after es) e :=
  (safe_append.1 h).2.1

theorem agrees_absent (a b : Bool) : c.Agrees p v a b .absent := by
  cases c <;> simp [Agrees]

theorem agrees_blank (b : Bool) : c.Agrees p v false b .blank := by
  cases c <;> simp [Agrees]

theorem agrees_assigned (a : Bool) : c.Agrees p v a true .assigned := by
  cases c <;> simp [Agrees]

theorem Agrees.weaken {a b a' b' : Bool} {st : Status} (h : c.Agrees p v a b st)
    (ha : a' → a) (hb : b → b') : c.Agrees p v a' b' st := by
  cases c with
  | reads => exact fun h' => h (ha h')
  | writes => exact fun hf hs => hb (h hf hs)

end Concern

/-! ## States and stores -/

/-- Whether variables stand as the sets of a state say. One that is not tracked is out of scope. -/
structure Fits (c : Concern) (p : Program) (slots : Std.HashMap Symbol Nat)
    (assigned potential : Slots) (σ : Store) : Prop where
  tracked : ∀ v n, slots[v]? = some n →
    c.Agrees p v (assigned.contains n) (potential.contains n) (σ v)
  untracked : ∀ l, slots[Symbol.var l]? = none → σ (.var l) = .absent

/-- Whether no two variables share a slot. -/
def DistinctSlots (slots : Std.HashMap Symbol Nat) : Prop :=
  ∀ (v w : Symbol) (n : Nat), slots[v]? = some n → slots[w]? = some n → v = w

/-- Whether a run can be in a store at the point of a state. -/
def Covers (c : Concern) (p : Program) (slots : Std.HashMap Symbol Nat) (s : Inits) (σ : Store) :
    Prop :=
  ∃ a b, s = .live a b ∧ Fits c p slots a b σ

namespace Covers

variable {c : Concern} {p : Program} {slots : Std.HashMap Symbol Nat} {s t : Inits} {σ σ' : Store}
  {v : Symbol} {n : Nat}

theorem isReachable (h : Covers c p slots s σ) : s.isReachable := by
  obtain ⟨a, b, rfl, -⟩ := h
  rfl

theorem weaken (h : Covers c p slots s σ) (hw : s.Weakens t) : Covers c p slots t σ := by
  obtain ⟨a, b, rfl, hf⟩ := h
  obtain ⟨a', b', rfl, ha, hb⟩ := hw a b rfl
  exact ⟨a', b', rfl, fun v n hn => (hf.tracked v n hn).weaken (ha n) (hb n), hf.untracked⟩

/-- What is certain of a variable in a covered store. -/
theorem not_blank (h : Covers .reads p slots s σ) (hn : slots[v]? = some n)
    (hs : s.isAssigned n) : σ v ≠ .blank := by
  obtain ⟨a, b, rfl, hf⟩ := h
  exact hf.tracked v n hn hs

theorem not_assigned (h : Covers .writes p slots s σ) (hn : slots[v]? = some n)
    (hv : p.isFinal v) (hs : s.mayBeAssigned n = false) : σ v ≠ .assigned := by
  obtain ⟨a, b, rfl, hf⟩ := h
  intro hσ
  have := hf.tracked v n hn hv hσ
  simp_all [Inits.mayBeAssigned]

/-- A store in which each variable stands as before or is out of scope. -/
theorem of_absent (h : Covers c p slots s σ) (hσ : ∀ v, σ' v = σ v ∨ σ' v = .absent) :
    Covers c p slots s σ' := by
  obtain ⟨a, b, rfl, hf⟩ := h
  refine ⟨a, b, rfl, fun v n hn => ?_, fun l hl => ?_⟩
  · obtain hv | hv := hσ v <;> rw [hv]
    · exact hf.tracked v n hn
    · exact Concern.agrees_absent _ _
  · have := hf.untracked l hl
    grind

theorem leave (h : Covers c p slots s σ) (vs : List Symbol) :
    Covers c p slots s (σ.after (vs.map .leave)) := by
  refine h.of_absent fun v => ?_
  rw [Store.after_leave]
  grind

/-- One variable gets a value that the state knows of. -/
theorem assign (h : Covers c p slots s σ) (hd : DistinctSlots slots) (hn : slots[v]? = some n)
    (hσ : ∀ w, w ≠ v → σ' w = σ w) (hv : σ' v = .assigned ∨ σ' v = .absent) :
    Covers c p slots (s.assign n) σ' := by
  obtain ⟨a, b, rfl, hf⟩ := h
  refine ⟨_, _, rfl, fun w m hm => ?_, fun l hl => ?_⟩
  · by_cases hw : w = v
    · subst hw
      obtain rfl : m = n := by grind
      obtain hv | hv := hv <;> rw [hv]
      · simp [Concern.agrees_assigned]
      · exact Concern.agrees_absent _ _
    · have hmn : n ≠ m := fun e => hw (hd w v m hm (e ▸ hn))
      rw [hσ w hw]
      exact (hf.tracked w m hm).weaken (by simp [hmn]) (by simp_all)
  · rw [hσ _ (by grind)]
    exact hf.untracked l hl

/-- A variable that is tracked comes into scope anew. -/
theorem forget (h : Covers c p slots s σ) (hd : DistinctSlots slots) (hn : slots[v]? = some n) :
    Covers c p slots (s.forget n) (σ.after [.enter v]) := by
  obtain ⟨a, b, rfl, hf⟩ := h
  refine ⟨_, _, rfl, fun w m hm => ?_, fun l hl => ?_⟩
  · rw [Store.after_single]
    by_cases hw : v = w
    · subst hw
      obtain rfl : m = n := by grind
      simp [Event.effect, Concern.agrees_blank]
    · have hmn : n ≠ m := fun e => hw (hd v w m (e ▸ hn) hm)
      simp only [Event.effect, hw, if_false]
      exact (hf.tracked w m hm).weaken (by simp +contextual) (by simp [hmn])
  · rw [Store.after_single]
    have := hf.untracked l hl
    simp only [Event.effect]
    grind

/-- Variables that the state knows nothing of come into scope. -/
theorem enter (h : Covers c p slots s σ) {k : Nat} (hs : s.Below k) {vs : List Symbol}
    (hv : ∀ v ∈ vs, ∃ n, slots[v]? = some n ∧ k ≤ n) :
    Covers c p slots s (σ.after (vs.map .enter)) := by
  obtain ⟨a, b, rfl, hf⟩ := h
  refine ⟨a, b, rfl, fun w m hm => ?_, fun l hl => ?_⟩
  · rw [Store.after_enter]
    split
    · rename_i hw
      obtain ⟨n, hn, hk⟩ := hv w hw
      obtain rfl : n = m := by grind
      have ha : a.contains n = false := by
        have := hs.1 n
        grind
      rw [ha]
      exact Concern.agrees_blank _
    · exact hf.tracked w m hm
  · have := hf.untracked l hl
    rw [Store.after_enter]
    grind

theorem allow (h : Covers c p slots s σ) (ns : List Nat) : Covers c p slots (s.allow ns) σ := by
  refine h.weaken ?_
  rintro a b rfl
  exact ⟨_, _, rfl, fun _ h => h, fun n hn => by simp [hn]⟩

/-- Whatever a piece of the body assigns, a state that allows for it covers the result. -/
theorem settled {ns : List Nat} {W : Symbol → Prop} (h : Covers c p slots (s.allow ns) σ)
    (hσ : Settled W [] σ σ') (hW : ∀ v n, W v → slots[v]? = some n → n ∈ ns) :
    Covers c p slots (s.allow ns) σ' := by
  obtain ⟨a, b, hs, hf⟩ := h
  refine ⟨a, b, hs, fun v n hn => ?_, fun l hl => hσ.absent (hf.untracked l hl)⟩
  have hb : n ∈ ns → b.contains n := by
    intro hm
    cases s <;> simp only [Inits.allow, Inits.live.injEq, reduceCtorEq] at hs
    simp [← hs.2, hm]
  have := hf.tracked v n hn
  obtain hv | hv | hv | ⟨hv, hw, -⟩ := hσ v
  · simp at hv
  · rw [hv]
    exact this
  · rw [hv]
    exact Concern.agrees_absent _ _
  · rw [hv, hb (hW v n hw hn)]
    exact Concern.agrees_assigned _

/-- The state after a block that runs on the way out. -/
theorem andThen (h : Covers c p slots s σ) (ht : Covers c p slots t σ')
    (hσ : ∀ v, σ' v = .blank → σ v = .blank) : Covers c p slots (s.andThen t) σ' := by
  obtain ⟨a, b, rfl, hf⟩ := h
  obtain ⟨a', b', rfl, hf'⟩ := ht
  refine ⟨_, _, rfl, fun v n hn => ?_, hf'.untracked⟩
  have h₁ := hf.tracked v n hn
  have h₂ := hf'.tracked v n hn
  cases c with
  | reads =>
    simp only [Concern.Agrees, Slots.contains_union, Bool.or_eq_true] at *
    grind
  | writes =>
    intro hf hs
    simp [h₂ hf hs]

/-- The state in which a handler starts, if what the protected part assigned before the exception
may also be assigned where that part ends. -/
theorem allowFrom {W : Symbol → Prop} (h : Covers c p slots s σ) (hσ : Settled W [] σ σ')
    (hW : c = .writes → ∀ v n, p.isFinal v → slots[v]? = some n → σ v ≠ .assigned →
      σ' v = .assigned → ∃ a b, t.unconditional = .live a b ∧ b.contains n) :
    Covers c p slots (s.allowFrom t) σ' := by
  obtain ⟨a, b, rfl, hf⟩ := h
  have untracked : ∀ l, slots[Symbol.var l]? = none → σ' (.var l) = .absent := fun l hl =>
    hσ.absent (hf.untracked l hl)
  -- Only the potential set grows, and it grows by that of the other state if there is one.
  obtain ⟨b', hs, hb, hb'⟩ : ∃ b', (Inits.live a b).allowFrom t = .live a b' ∧
      (∀ n, b.contains n → b'.contains n) ∧
      ∀ a₂ b₂, t.unconditional = .live a₂ b₂ → ∀ n, b₂.contains n → b'.contains n := by
    cases ht : t.unconditional with
    | live a₂ b₂ =>
      refine ⟨b.union b₂, by simp [Inits.allowFrom, ht], by simp +contextual, ?_⟩
      rintro _ _ ⟨⟩
      simp +contextual
    | _ => exact ⟨b, by simp [Inits.allowFrom, ht], fun _ h => h, by simp⟩
  refine ⟨a, b', hs, fun v n hn => ?_, untracked⟩
  have old := hf.tracked v n hn
  cases c with
  | reads => exact fun ha hblank => old ha (hσ.blank hblank)
  | writes =>
    intro hfin hassigned
    by_cases hv : σ v = .assigned
    · exact hb n (old hfin hv)
    · obtain ⟨a₂, b₂, ht, hn₂⟩ := hW rfl v n hfin hn hv hassigned
      exact hb' a₂ b₂ ht n hn₂

end Covers

end Javelin.Flow
