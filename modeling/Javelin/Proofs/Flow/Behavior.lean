import Javelin.Flow.Basic

/-!
# Runs and what they do to variables

What a run of a piece of a body does to variables is a list of events, and how it ends is an
outcome. A behavior is the set of the runs that are possible.

1. Events, and the status of a variable after them.
2. Behaviors and the ways to combine them. An exception may arise before and after anything, so the
   beginnings of a run that never ends are among the runs that end by an exception.
3. `Settles`, what a run can change at most. It carries an assignment state from one round of a loop
   to the next, and from any point of a block to its handlers.
-/

namespace Javelin.Flow

/-! ## Events -/

/-- Something that happens to a variable. -/
inductive Event where
  /-- A local variable comes into scope and has no value. -/
  | enter (v : Symbol)
  | leave (v : Symbol)
  /-- A variable gets the value that its declaration gives it. -/
  | init (v : Symbol)
  | read (v : Symbol)
  /-- A local variable, or a field of the current object or class, is assigned. -/
  | write (v : Symbol)
  /-- A field of an object that is given by an expression is assigned. -/
  | store (f : FieldId)
deriving DecidableEq

/-- How a variable stands: out of scope, without a value or with one. -/
inductive Status where
  | absent
  | blank
  | assigned
deriving DecidableEq

/-- The status of a variable after it is assigned. A local variable that is out of scope stays so.
-/
def Status.written : Symbol → Status → Status
  | .var _, .absent => .absent
  | _, _ => .assigned

/-- The status of a variable after an event. -/
def Event.effect (v : Symbol) : Event → Status → Status
  | .enter w, st => if w = v then .blank else st
  | .leave w, st => if w = v then .absent else st
  | .init w, st => if w = v then .assigned else st
  | .write w, st => if w = v then st.written v else st
  | .read _, st | .store _, st => st

/-- The status of all variables. -/
abbrev Store := Symbol → Status

/-- The store after events. -/
def Store.after (σ : Store) (es : List Event) : Store :=
  fun v => es.foldl (fun st e => e.effect v st) (σ v)

@[simp]
theorem Store.after_nil (σ : Store) : σ.after [] = σ := rfl

@[simp]
theorem Store.after_append (σ : Store) (es fs : List Event) :
    σ.after (es ++ fs) = (σ.after es).after fs := by
  funext v
  simp [Store.after, List.foldl_append]

theorem Store.after_cons (σ : Store) (e : Event) (es : List Event) :
    σ.after (e :: es) = (σ.after [e]).after es := rfl

theorem Store.after_single (σ : Store) (e : Event) (v : Symbol) :
    σ.after [e] v = e.effect v (σ v) := rfl

/-- Leaving variables makes them absent and changes nothing else. -/
theorem Store.after_leave (σ : Store) (vs : List Symbol) (v : Symbol) :
    σ.after (vs.map .leave) v = if v ∈ vs then .absent else σ v := by
  induction vs generalizing σ with
  | nil => simp
  | cons w vs ih =>
    rw [List.map_cons, Store.after_cons, ih]
    simp only [Store.after_single, Event.effect, List.mem_cons]
    grind

/-- Entering variables takes their values and changes nothing else. -/
theorem Store.after_enter (σ : Store) (vs : List Symbol) (v : Symbol) :
    σ.after (vs.map .enter) v = if v ∈ vs then .blank else σ v := by
  induction vs generalizing σ with
  | nil => simp
  | cons w vs ih =>
    rw [List.map_cons, Store.after_cons, ih]
    simp only [Store.after_single, Event.effect, List.mem_cons]
    grind

/-! ## Behaviors -/

/-- How a run ends. -/
inductive Outcome where
  | done
  /-- A condition was evaluated. -/
  | truth (b : Bool)
  | jump (j : Jump)
  | throw
deriving DecidableEq

def Outcome.isAbrupt : Outcome → Bool
  | .jump _ | .throw => true
  | _ => false

/-- The runs of a piece of a body: what happens, and how it ends. -/
abbrev Behavior := List Event → Outcome → Prop

namespace Behavior

/-- There is no run. -/
def nothing : Behavior := fun _ _ => False

/-- Ends at once. -/
def finish (o : Outcome) : Behavior := fun es r => es = [] ∧ r = o

def skip : Behavior := finish .done

def emit (events : List Event) : Behavior := fun es r => es = events ∧ r = .done

/-- The second piece runs if the first completes. -/
def andThen (B C : Behavior) : Behavior := fun es r =>
  (B es r ∧ r.isAbrupt) ∨ ∃ e₁ e₂, es = e₁ ++ e₂ ∧ B e₁ .done ∧ C e₂ r

/-- A condition decides what runs next. -/
def branch (C T F : Behavior) : Behavior := fun es r =>
  (C es r ∧ r.isAbrupt) ∨ ∃ e₁ e₂ b, es = e₁ ++ e₂ ∧ C e₁ (.truth b) ∧ (if b then T else F) e₂ r

def either (B C : Behavior) : Behavior := fun es r => B es r ∨ C es r

/-- A condition for the opposite. -/
def negated (C : Behavior) : Behavior := fun es r =>
  (C es r ∧ r.isAbrupt) ∨ ∃ b, C es (.truth b) ∧ r = .truth !b

/-- A condition as a value. -/
def valued (C : Behavior) : Behavior := fun es r =>
  (C es r ∧ r.isAbrupt) ∨ ∃ b, C es (.truth b) ∧ r = .done

/-- A value as a condition; either outcome is possible. -/
def guessed (B : Behavior) : Behavior := fun es r =>
  (B es r ∧ r.isAbrupt) ∨ ∃ b, B es .done ∧ r = .truth b

/-- An exception may arise before and after everything. -/
def exposed (B : Behavior) : Behavior := fun es r =>
  B es r ∨ (r = .throw ∧ (es = [] ∨ ∃ o, B es o))

/-- An expression ends with a value or an exception; no jump leaves it. -/
def evaluated (B : Behavior) : Behavior := fun es r => exposed B es r ∧ (r = .done ∨ r = .throw)

/-- A condition ends with its truth or an exception. -/
def decided (B : Behavior) : Behavior := fun es r =>
  exposed B es r ∧ ((∃ b, r = .truth b) ∨ r = .throw)

/-- The jumps of some kind end here. -/
def absorb (isOwn : Jump → Bool) (B : Behavior) : Behavior := fun es r =>
  (B es r ∧ (∀ b, r ≠ .truth b) ∧ ∀ j, r = .jump j → isOwn j = false) ∨
    ∃ j, isOwn j ∧ B es (.jump j) ∧ r = .done

/-- Variables that go out of scope at the end, however the end is reached. -/
def within (vs : List Symbol) (B : Behavior) : Behavior := fun es r =>
  ∃ e, es = e ++ vs.map .leave ∧ B e r

/-- The body of a loop, which ends with the truth of whether the loop goes on. -/
def turn (continues : Jump → Bool) (B : Behavior) : Behavior := fun es r =>
  (B.absorb continues es .done ∧ r = .truth true) ∨
    (B es (.jump (.break none)) ∧ r = .truth false) ∨
    (B.absorb continues es r ∧ r.isAbrupt ∧ r ≠ .jump (.break none))

/-- Rounds of a loop: one that ends with `true` is followed by another, and `false` ends the loop.
-/
inductive rounds (B : Behavior) : Behavior
  | next {e₁ e₂ : List Event} {r : Outcome} :
      B e₁ (.truth true) → rounds B e₂ r → rounds B (e₁ ++ e₂) r
  | stop {es : List Event} : B es (.truth false) → rounds B es .done
  | leave {es : List Event} {r : Outcome} : B es r → r.isAbrupt → rounds B es r

/-- An exception may be handled. -/
def handled (B H : Behavior) : Behavior := fun es r =>
  (B es r ∧ ∀ b, r ≠ .truth b) ∨ ∃ e₁ e₂, es = e₁ ++ e₂ ∧ B e₁ .throw ∧ H e₂ r

/-- A final block runs at the end, however the end is reached; one that completes ends like what
came before. -/
def ensured (B F : Behavior) : Behavior := fun es r =>
  ∃ e₁ o e₂, es = e₁ ++ e₂ ∧ B e₁ o ∧
    ((F e₂ .done ∧ r = o ∧ ∀ b, o ≠ .truth b) ∨ (F e₂ r ∧ r.isAbrupt))

end Behavior

/-! ## What a run can change -/

/-- How a store may look after a run that assigns at most the variables in `W` and leaves at most
the variables in `D` in scope. -/
def Settled (W : Symbol → Prop) (D : List Symbol) (σ σ' : Store) : Prop :=
  ∀ v, v ∈ D ∨ σ' v = σ v ∨ σ' v = .absent ∨
    (σ' v = .assigned ∧ W v ∧ ∀ l, v = .var l → σ v ≠ .absent)

namespace Settled

variable {W W' : Symbol → Prop} {D D' : List Symbol} {σ σ' σ'' : Store}

theorem refl (σ : Store) : Settled W D σ σ := fun _ => .inr (.inl rfl)

theorem mono (hW : ∀ v, W v → W' v) (hD : ∀ v ∈ D, v ∈ D') (h : Settled W D σ σ') :
    Settled W' D' σ σ' := by
  intro v
  have := hW v
  have := hD v
  have := h v
  grind

theorem trans (h : Settled W D σ σ') (h' : Settled W D σ' σ'') : Settled W D σ σ'' := by
  intro v
  have := h v
  have := h' v
  grind

/-- What goes out of scope is settled. -/
theorem leave (h : Settled W D σ σ') : Settled W [] σ (σ'.after (D.map .leave)) := by
  intro v
  rw [Store.after_leave]
  have := h v
  grind

variable (h : Settled W [] σ σ')
include h

theorem blank {v : Symbol} (hv : σ' v = .blank) : σ v = .blank := by
  have := h v
  grind

theorem assigned {v : Symbol} (hv : σ' v = .assigned) : σ v = .assigned ∨ W v := by
  have := h v
  grind

theorem absent {l : LocalId} (hl : σ (.var l) = .absent) : σ' (.var l) = .absent := by
  have := h (.var l)
  grind

end Settled

namespace Behavior

/-- A behavior whose runs all settle. -/
def Settles (W : Symbol → Prop) (D : List Symbol) (B : Behavior) : Prop :=
  ∀ es r, B es r → ∀ σ : Store, Settled W D σ (σ.after es)

variable {W W' : Symbol → Prop} {D D' : List Symbol} {B C T F : Behavior}

theorem Settles.mono (hW : ∀ v, W v → W' v) (hD : ∀ v ∈ D, v ∈ D') (h : Settles W D B) :
    Settles W' D' B :=
  fun es r hr σ => (h es r hr σ).mono hW hD

/-- Runs that settle as they are, or with another outcome. -/
theorem Settles.of_events (h : Settles W D B) (hC : ∀ es r, C es r → ∃ o, B es o) :
    Settles W D C := by
  intro es r hr σ
  obtain ⟨o, ho⟩ := hC es r hr
  exact h es o ho σ

theorem settles_nothing : Settles W D nothing := fun _ _ h => h.elim

theorem settles_finish (o : Outcome) : Settles W D (finish o) := by
  rintro _ _ ⟨rfl, rfl⟩ σ
  exact Settled.refl σ

theorem settles_emit {events : List Event}
    (h : ∀ e ∈ events, ∀ v st, v ∈ D ∨ e.effect v st = st ∨
      (e.effect v st = .assigned ∧ W v ∧ ∀ l, v = .var l → st ≠ .absent)) :
    Settles W D (emit events) := by
  rintro es r ⟨hes, -⟩ σ
  subst hes
  induction es generalizing σ with
  | nil => exact Settled.refl σ
  | cons e es ih =>
    have first : Settled W D σ (σ.after [e]) := by
      intro v
      have := h e List.mem_cons_self v (σ v)
      rw [Store.after_single]
      grind
    rw [Store.after_cons]
    exact first.trans (ih _ fun e he => h e (List.mem_cons_of_mem _ he))

theorem settles_read (v : Symbol) : Settles W D (emit [.read v]) :=
  settles_emit (by simp [Event.effect])

theorem settles_store (f : FieldId) : Settles W D (emit [.store f]) :=
  settles_emit (by simp [Event.effect])

theorem settles_write {v : Symbol} (hv : W v) : Settles W D (emit [.write v]) := by
  refine settles_emit fun e he w st => ?_
  obtain rfl := List.mem_singleton.1 he
  simp only [Event.effect]
  split
  · rename_i h
    subst h
    unfold Status.written
    grind
  · simp

theorem settles_enter {vs : List Symbol} (h : ∀ v ∈ vs, v ∈ D) :
    Settles W D (emit (vs.map .enter)) := by
  refine settles_emit fun e he w st => ?_
  obtain ⟨v, hv, rfl⟩ := List.mem_map.1 he
  have := h v hv
  simp only [Event.effect]
  grind

theorem settles_init {v : Symbol} (h : v ∈ D) : Settles W D (emit [.init v]) := by
  refine settles_emit fun e he w st => ?_
  obtain rfl := List.mem_singleton.1 he
  simp only [Event.effect]
  grind

theorem Settles.andThen (hB : Settles W D B) (hC : Settles W D C) :
    Settles W D (B.andThen C) := by
  rintro es r (⟨h, -⟩ | ⟨e₁, e₂, rfl, h₁, h₂⟩) σ
  · exact hB es r h σ
  · rw [Store.after_append]
    exact (hB _ _ h₁ σ).trans (hC _ _ h₂ _)

theorem Settles.branch (hC : Settles W D C) (hT : Settles W D T) (hF : Settles W D F) :
    Settles W D (C.branch T F) := by
  rintro es r (⟨h, -⟩ | ⟨e₁, e₂, b, rfl, h₁, h₂⟩) σ
  · exact hC es r h σ
  · rw [Store.after_append]
    refine (hC _ _ h₁ σ).trans ?_
    cases b
    · exact hF _ _ h₂ _
    · exact hT _ _ h₂ _

theorem Settles.either (hB : Settles W D B) (hC : Settles W D C) :
    Settles W D (B.either C) := by
  rintro es r (h | h) σ
  · exact hB es r h σ
  · exact hC es r h σ

theorem Settles.negated (h : Settles W D C) : Settles W D C.negated :=
  h.of_events fun es r hr => by
    obtain ⟨hr, -⟩ | ⟨b, hr, -⟩ := hr
    · exact ⟨_, hr⟩
    · exact ⟨_, hr⟩

theorem Settles.valued (h : Settles W D C) : Settles W D C.valued :=
  h.of_events fun es r hr => by
    obtain ⟨hr, -⟩ | ⟨b, hr, -⟩ := hr
    · exact ⟨_, hr⟩
    · exact ⟨_, hr⟩

theorem Settles.guessed (h : Settles W D B) : Settles W D B.guessed :=
  h.of_events fun es r hr => by
    obtain ⟨hr, -⟩ | ⟨b, hr, -⟩ := hr
    · exact ⟨_, hr⟩
    · exact ⟨_, hr⟩

theorem Settles.absorb {isOwn : Jump → Bool} (h : Settles W D B) :
    Settles W D (B.absorb isOwn) :=
  h.of_events fun es r hr => by
    obtain ⟨hr, -⟩ | ⟨j, -, hr, -⟩ := hr
    · exact ⟨_, hr⟩
    · exact ⟨_, hr⟩

theorem Settles.turn {continues : Jump → Bool} (h : Settles W D B) :
    Settles W D (B.turn continues) := by
  rintro es r (⟨hr, -⟩ | ⟨hr, -⟩ | ⟨hr, -⟩) σ
  · exact h.absorb es _ hr σ
  · exact h es _ hr σ
  · exact h.absorb es _ hr σ

theorem Settles.exposed (h : Settles W D B) : Settles W D B.exposed := by
  rintro es r (hr | ⟨-, rfl | ⟨o, ho⟩⟩) σ
  · exact h es r hr σ
  · exact Settled.refl σ
  · exact h es o ho σ

theorem Settles.evaluated (h : Settles W D B) : Settles W D B.evaluated :=
  h.exposed.of_events fun _ _ hr => ⟨_, hr.1⟩

theorem Settles.decided (h : Settles W D B) : Settles W D B.decided :=
  h.exposed.of_events fun _ _ hr => ⟨_, hr.1⟩

/-- Nothing stays in scope where the variables of a piece leave. -/
theorem Settles.within (h : Settles W D B) : Settles W [] (B.within D) := by
  rintro es r ⟨e, rfl, hr⟩ σ
  rw [Store.after_append]
  exact (h e r hr σ).leave

theorem Settles.rounds (h : Settles W D B) : Settles W D B.rounds := by
  intro es r hr
  induction hr with
  | next h₁ _ ih =>
    intro σ
    rw [Store.after_append]
    exact (h _ _ h₁ σ).trans (ih _)
  | stop h₁ => exact h _ _ h₁
  | leave h₁ _ => exact h _ _ h₁

theorem Settles.handled (hB : Settles W D B) (hF : Settles W D F) :
    Settles W D (B.handled F) := by
  rintro es r (⟨h, -⟩ | ⟨e₁, e₂, rfl, h₁, h₂⟩) σ
  · exact hB es r h σ
  · rw [Store.after_append]
    exact (hB _ _ h₁ σ).trans (hF _ _ h₂ _)

theorem Settles.ensured (hB : Settles W D B) (hF : Settles W D F) :
    Settles W D (B.ensured F) := by
  rintro es r ⟨e₁, o, e₂, rfl, h₁, ⟨h₂, -⟩ | ⟨h₂, -⟩⟩ σ <;> rw [Store.after_append]
  · exact (hB _ _ h₁ σ).trans (hF _ _ h₂ _)
  · exact (hB _ _ h₁ σ).trans (hF _ _ h₂ _)

end Behavior

end Javelin.Flow
