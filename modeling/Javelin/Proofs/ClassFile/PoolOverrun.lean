import Javelin.Proofs.ClassFile.RoundTrip

/-!
# Where reading breaks down

Every string of bytes is a class file or has a fault, except for one shape: the pool has all 65534
indices, the last of them holds a long or double, and one more entry can be read behind it. The
index has then gone round to zero, and the pool has no place for it (`ofBytes_outside_iff`).
-/

namespace Javelin.ClassFile

-- Sums start at the number zero itself.
attribute [local instance (1100)] Zero.ofOfNat0

/-! ## Readers that never break down -/

section

variable {α β : Type}

/-- Whatever the file, no place outside the pool is asked for. -/
def Safe (m : FileReader α) : Prop := ∀ s place size, m.run s ≠ .error (.outside place size)

theorem except_bind_error {ε : Type} {m : Except ε α} {f : α → Except ε β} {e : ε}
    (h : (m >>= f) = .error e) : m = .error e ∨ ∃ a, m = .ok a ∧ f a = .error e := by
  cases m with
  | error e' => cases h; exact .inl rfl
  | ok a => exact .inr ⟨a, rfl, h⟩

theorem run_bind_outside {m : FileReader α} {f : α → FileReader β} {s : Cursor} {place size : Nat}
    (hm : Safe m) (h : (m >>= f).run s = .error (.outside place size)) :
    ∃ a s', m.run s = .ok (a, s') ∧ (f a).run s' = .error (.outside place size) := by
  rw [StateT.run_bind] at h
  obtain h | ⟨⟨a, s'⟩, ha, hf⟩ := except_bind_error h
  · exact absurd h (hm s place size)
  · exact ⟨a, s', ha, hf⟩

theorem safe_pure (a : α) : Safe (pure a) := nofun

theorem safe_throw {e : ReadFault} (h : ∀ place size, e ≠ .outside place size) :
    Safe (throw e : FileReader α) := fun _ place size he => h place size (Except.error.inj he)

theorem safe_throw_bind (e : ReadFault) (h : ∀ place size, e ≠ .outside place size)
    (k : α → FileReader β) : Safe (throw e >>= k) :=
  fun _ place size he => h place size (Except.error.inj he)

theorem safe_guard {c : Prop} [Decidable c] (e : ReadFault)
    (he : ∀ place size, e ≠ .outside place size) {k : Unit → FileReader α} (h : Safe (k ())) :
    Safe (if c then throw e >>= k else k ()) := by
  split
  · exact safe_throw_bind e he k
  · exact h

theorem Safe.bind {m : FileReader α} {f : α → FileReader β} (hm : Safe m) (hf : ∀ a, Safe (f a)) :
    Safe (m >>= f) := by
  intro s place size h
  obtain ⟨a, s', _, hfail⟩ := run_bind_outside hm h
  exact hf a s' place size hfail

theorem safe_take (n : Nat) : Safe (take n) := by
  intro s place size h
  change (if s.ended.isSome then pure {} else if n ≤ s.data.size - s.pos then _ else _ :
    FileReader Text).run s = _ at h
  split at h
  · cases h
  · split at h <;> cases h

theorem safe_u1 : Safe u1 := (safe_take 1).bind fun _ => safe_pure _

theorem safe_u2 : Safe u2 := (safe_take 2).bind fun _ => safe_pure _

theorem safe_u4 : Safe u4 := (safe_take 4).bind fun _ => safe_pure _

theorem safe_checkEnd (fault : Ended → ReadFault)
    (h : ∀ e place size, fault e ≠ .outside place size) : Safe (checkEnd fault) := by
  rintro ⟨data, pos, _ | e⟩ place size hfail
  · cases hfail
  · exact h e place size (Except.error.inj hfail)

theorem safe_items {item : FileReader α} (h : Safe item) : ∀ n, Safe (items item n)
  | 0 => safe_pure []
  | n + 1 => h.bind fun _ => (safe_items h n).bind fun _ => safe_pure _

theorem safe_itemsFrom {item : Nat → FileReader α} (h : ∀ i, Safe (item i)) :
    ∀ n i, Safe (itemsFrom item i n)
  | 0, _ => safe_pure []
  | n + 1, i => (h i).bind fun _ => (safe_itemsFrom h n (i + 1)).bind fun _ => safe_pure _

end

theorem safe_entry (i : Nat) : Safe (entry i) := by
  have hended : Safe (checkEnd (.entryEnded i)) := safe_checkEnd _ nofun
  have hdone (e : Entry) : Safe (do let e ← pure e; checkEnd (.entryEnded i); pure e) :=
    (safe_pure e).bind fun e => hended.bind fun _ => safe_pure e
  refine safe_u1.bind fun tag => ?_
  dsimp only
  split
  -- The kinds of entries differ in the numbers that they consist of.
  case h_1 => exact safe_u2.bind fun _ => (safe_take _).bind fun _ => hdone _
  case h_9 => exact safe_u1.bind fun _ => safe_u2.bind fun _ => hdone _
  case h_15 =>
    split
    · exact safe_u2.bind fun _ => safe_u2.bind fun _ => hdone _
    · exact hended.bind fun _ => safe_throw_bind (.unknownTag i tag) nofun _
  all_goals
    first
    | exact safe_u2.bind fun _ => hdone _
    | exact safe_u4.bind fun _ => hdone _
    | exact safe_u2.bind fun _ => safe_u2.bind fun _ => hdone _
    | exact safe_u4.bind fun _ => safe_u4.bind fun _ => hdone _

section

variable (p : Pool)

theorem safe_fileAttribute (fault : AttributeFault → ReadFault)
    (h : ∀ f place size, fault f ≠ .outside place size) : Safe (fileAttribute p fault) := by
  refine safe_u2.bind fun _ => safe_u4.bind fun _ => (safe_take _).bind fun _ =>
    (safe_checkEnd (fault ∘ .ended) fun e => h (.ended e)).bind fun _ => ?_
  split
  · exact safe_pure _
  · exact safe_throw (h _)

theorem safe_fileAttributes (fault : AttributeFault → ReadFault)
    (h : ∀ f place size, fault f ≠ .outside place size) : Safe (fileAttributes p fault) :=
  safe_u2.bind fun _ => (safe_checkEnd (fault ∘ .ended) fun e => h (.ended e)).bind fun _ =>
    safe_items (safe_fileAttribute p fault h) _

theorem safe_member (fault : Nat → AttributeFault → ReadFault)
    (h : ∀ i f place size, fault i f ≠ .outside place size) (i : Nat) :
    Safe (member p fault i) :=
  safe_u2.bind fun _ => safe_u2.bind fun _ => safe_u2.bind fun _ =>
    (safe_fileAttributes p (fault i) (h i)).bind fun _ => safe_pure _

end

theorem safe_header : Safe header := by
  refine safe_u4.bind fun m => (safe_checkEnd .noMagic nofun).bind fun _ =>
    safe_guard (.badMagic m) nofun ?_
  refine safe_u2.bind fun _ => safe_u2.bind fun _ => safe_u2.bind fun _ =>
    (safe_checkEnd .noHeader nofun).bind fun _ => safe_guard .emptyPool nofun ?_
  exact safe_pure _

theorem safe_classBody (minor major : UInt16) (pool : Pool) : Safe (classBody minor major pool) := by
  refine safe_u2.bind fun _ => safe_u2.bind fun this => safe_u2.bind fun _ => safe_u2.bind fun _ =>
    (safe_items safe_u2 _).bind fun _ => (safe_checkEnd .classInfo nofun).bind fun _ => ?_
  split
  · exact safe_u2.bind fun _ => (safe_itemsFrom (safe_member pool .field nofun) _ _).bind fun _ =>
      safe_u2.bind fun _ => (safe_itemsFrom (safe_member pool .method nofun) _ _).bind fun _ =>
      (safe_fileAttributes pool .classAttributes nofun).bind fun _ => safe_pure _
  · exact safe_throw_bind (.notClass this) nofun _

/-! ## The pool -/

/-- Entries that can be read in a row, from an index and a place in a file on. -/
inductive Row : UInt16 → Cursor → List Entry → Cursor → Prop where
  | nil {i : UInt16} {s : Cursor} : Row i s [] s
  | cons {i : UInt16} {s t u : Cursor} {e : Entry} {es : List Entry}
    (h : (entry i.toNat).run s = .ok (e, t)) (hs : Row (i + e.slots.toUInt16) t es u) :
    Row i s (e :: es) u

/-- The number of indices that a list of entries takes. -/
def slotsOf (es : List Entry) : Nat := (es.map Entry.slots).sum

/-- The entries overrun a pool of all 65534 indices: a wide one is at the last index, and another
stands behind it. -/
def Overrun (i : UInt16) (s : Cursor) : Prop :=
  ∃ front wide next t, Row i s (front ++ [wide, next]) t ∧
    i.toNat + slotsOf front = 65534 ∧ wide.slots = 2

theorem add_slots_eq_zero {i : UInt16} (hi : i < 65535) {e : Entry}
    (h : i.toNat + e.slots = 65536) : i + e.slots.toUInt16 = 0 := by
  rw [← UInt16.toNat_inj, toNat_add_slots hi, if_pos h]
  rfl

theorem overrun_iff {i : UInt16} (hi : i < 65535) (s : Cursor) :
    Overrun i s ↔ ∃ e t, (entry i.toNat).run s = .ok (e, t) ∧
      if i.toNat + e.slots = 65536 then ∃ next u, (entry 0).run t = .ok (next, u)
      else Overrun (i + e.slots.toUInt16) t := by
  constructor
  · rintro ⟨_ | ⟨e, front⟩, wide, next, u, hrow, hsum, hwide⟩
    · obtain _ | ⟨hentry, _ | ⟨hnext, _⟩⟩ := hrow
      have hend : i.toNat + wide.slots = 65536 := by
        rw [hwide]
        exact congrArg (· + 2) hsum
      rw [add_slots_eq_zero hi hend] at hnext
      exact ⟨wide, _, hentry, by rw [if_pos hend]; exact ⟨next, _, hnext⟩⟩
    · obtain _ | ⟨hentry, hrest⟩ := hrow
      have hsum' : i.toNat + e.slots + slotsOf front = 65534 := by
        rw [← hsum, Nat.add_assoc]
        rfl
      have hne : i.toNat + e.slots ≠ 65536 := by omega
      refine ⟨e, _, hentry, ?_⟩
      rw [if_neg hne]
      exact ⟨front, wide, next, u, hrest, by rw [toNat_add_slots hi, if_neg hne, hsum'], hwide⟩
  · rintro ⟨e, t, hentry, hrest⟩
    split at hrest
    next hend =>
      obtain ⟨next, u, hnext⟩ := hrest
      have hlt := UInt16.lt_iff_toNat_lt.1 hi
      have hbound : (65535 : UInt16).toNat = 65535 := rfl
      have hslots := slots_bounds e
      rw [← show (0 : UInt16).toNat = 0 from rfl, ← add_slots_eq_zero hi hend] at hnext
      exact ⟨[], e, next, u, .cons hentry (.cons hnext .nil), by simp [slotsOf]; omega, by omega⟩
    next hne =>
      obtain ⟨front, wide, next, u, hrow, hsum, hwide⟩ := hrest
      rw [toNat_add_slots hi, if_neg hne, Nat.add_assoc] at hsum
      exact ⟨e :: front, wide, next, u, .cons hentry hrow, hsum, hwide⟩

section

variable {count : UInt16} {place size : Nat}

theorem entriesFrom_zero (hcount : 0 < count) (v : Vector (Option Entry) (count.toNat - 1))
    (s : Cursor) : (entriesFrom 0 v).run s = .error (.outside place size) ↔
      place = 65535 ∧ size = count.toNat - 1 ∧ ∃ e t, (entry 0).run s = .ok (e, t) := by
  have hplace : ¬ ((0 : UInt16) - 1).toNat < count.toNat - 1 := by
    have := count.toNat_lt
    have : ((0 : UInt16) - 1).toNat = 65535 := rfl
    omega
  unfold entriesFrom
  simp only [dif_pos hcount, dif_neg hplace]
  constructor
  · intro h
    obtain ⟨e, t, he, hfail⟩ := run_bind_outside (safe_entry _) h
    cases hfail
    exact ⟨rfl, rfl, e, t, he⟩
  · rintro ⟨rfl, rfl, e, t, he⟩
    rw [StateT.run_bind]
    change ((entry 0).run s >>= _) = _
    rw [he]
    rfl

theorem entriesFrom_step {i : UInt16} (hpos : 0 < i.toNat) (hlt : i < count)
    (v : Vector (Option Entry) (count.toNat - 1)) (s : Cursor) (place size : Nat) :
    ∃ hp : (i - 1).toNat < count.toNat - 1,
      (entriesFrom i v).run s = .error (.outside place size) ↔
        ∃ e t, (entry i.toNat).run s = .ok (e, t) ∧
          (entriesFrom (i + e.slots.toUInt16) (v.set (i - 1).toNat (some e))).run t =
            .error (.outside place size) := by
  have hp : (i - 1).toNat < count.toNat - 1 := by
    have := UInt16.lt_iff_toNat_lt.1 hlt
    rw [toNat_sub_one hpos]
    omega
  refine ⟨hp, ?_⟩
  rw [entriesFrom]
  simp only [dif_pos hlt, dif_pos hp]
  constructor
  · exact run_bind_outside (safe_entry _)
  · rintro ⟨e, t, he, hrest⟩
    rw [StateT.run_bind, he]
    exact hrest

theorem entriesFrom_outside_iff {i : UInt16} (hi : i ≠ 0)
    (v : Vector (Option Entry) (count.toNat - 1)) (s : Cursor) :
    (entriesFrom i v).run s = .error (.outside place size) ↔
      place = 65535 ∧ size = 65534 ∧ count = 65535 ∧ Overrun i s := by
  induction hn : 65536 - i.toNat using Nat.strongRecOn generalizing i v s with
  | ind n ih =>
  have hpos : 0 < i.toNat := by
    rw [Nat.pos_iff_ne_zero]
    exact fun h => hi (UInt16.toNat_inj.1 h)
  by_cases hlt : i < count
  · obtain ⟨hp, hstep⟩ := entriesFrom_step hpos hlt v s place size
    have hlt' := UInt16.lt_iff_toNat_lt.1 hlt
    have hbound := count.toNat_lt
    have hlast : (65535 : UInt16).toNat = 65535 := rfl
    have hi' : i < 65535 := UInt16.lt_iff_toNat_lt.2 (by omega)
    have hrest (e : Entry) (t : Cursor) :
        (entriesFrom (i + e.slots.toUInt16) (v.set (i - 1).toNat (some e))).run t =
            .error (.outside place size) ↔
          place = 65535 ∧ size = 65534 ∧ count = 65535 ∧
            if i.toNat + e.slots = 65536 then ∃ next u, (entry 0).run t = .ok (next, u)
            else Overrun (i + e.slots.toUInt16) t := by
      have hslots := slots_bounds e
      split
      next hend =>
        rw [add_slots_eq_zero hi' hend, entriesFrom_zero (Nat.zero_lt_of_lt hlt')]
        have hcount : count = 65535 := UInt16.toNat_inj.1 (by omega)
        simp [hcount]
      next hne =>
        have hnext := (toNat_add_slots hi' e).trans (if_neg hne)
        refine ih _ ?_ ?_ _ t rfl
        · omega
        · rw [ne_eq, ← UInt16.toNat_inj, hnext, UInt16.toNat_zero]
          omega
    rw [hstep, overrun_iff hi']
    simp only [hrest]
    constructor
    · rintro ⟨e, t, hentry, hplace, hsize, hcount, hover⟩
      exact ⟨hplace, hsize, hcount, e, t, hentry, hover⟩
    · rintro ⟨hplace, hsize, hcount, e, t, hentry, hover⟩
      exact ⟨e, t, hentry, hplace, hsize, hcount, hover⟩
  · unfold entriesFrom
    rw [dif_neg hlt]
    refine ⟨nofun, fun ⟨_, _, hcount, front, _, _, _, _, hsum, _⟩ => absurd hcount ?_⟩
    rintro rfl
    rw [UInt16.lt_iff_toNat_lt] at hlt
    have : (65535 : UInt16).toNat = 65535 := rfl
    omega

end

/-! ## Files -/

/-- The bytes do not say whether they are a class file: behind the header of a pool of all 65534
indices, the entries overrun it. -/
def Overfull (data : Text) : Prop :=
  ∃ minor major s, header.run { data } = .ok ((minor, major, 65535), s) ∧ Overrun 1 s

theorem row_of_bytes {data : Text} {es : List Entry} (hsound : ∀ e ∈ es, e.IsSound) (i : UInt16)
    {pos : Nat} {rest : List UInt8}
    (h : data.toList.drop pos = bytesOfEntries (es.map some) ++ rest) :
    ∃ t, Row i ⟨data, pos, none⟩ es t := by
  induction es generalizing i pos with
  | nil => exact ⟨_, .nil⟩
  | cons e es ih =>
    have hbytes : data.toList.drop pos =
        (e.tag :: e.payload) ++ (bytesOfEntries (es.map some) ++ rest) := by
      rw [h]
      simp [bytesOfEntries]
    have hnext : data.toList.drop (pos + (e.tag :: e.payload).length) =
        bytesOfEntries (es.map some) ++ rest := by
      rw [← List.drop_drop, hbytes, List.drop_left]
    have hentry := reads_entry (hsound e List.mem_cons_self) i.toNat data pos _ hbytes
    obtain ⟨t, ht⟩ := ih (fun e' h' => hsound e' (List.mem_cons_of_mem e h')) _ hnext
    exact ⟨t, .cons hentry ht⟩

/-- The bytes of a pool of all 65534 indices. -/
def fullBytes (es : List Entry) : Text :=
  .ofList (bytesOfHeader 0 52 65534 ++ bytesOfEntries (es.map some))

theorem overfull_fullBytes {front : List Entry} {wide next : Entry}
    (hsound : ∀ e ∈ front ++ [wide, next], e.IsSound) (hfront : slotsOf front = 65533)
    (hwide : wide.slots = 2) : Overfull (fullBytes (front ++ [wide, next])) := by
  have hheader : Reads header (bytesOfHeader 0 52 65534) (0, 52, 65535) :=
    reads_header (by decide)
  have hrun := hheader (fullBytes (front ++ [wide, next])) 0 _ rfl
  have hdrop : (fullBytes (front ++ [wide, next])).toList.drop (bytesOfHeader 0 52 65534).length =
      bytesOfEntries ((front ++ [wide, next]).map some) ++ [] := by
    rw [fullBytes, Text.toList_ofList, List.drop_left, List.append_nil]
  obtain ⟨t, hrow⟩ := row_of_bytes hsound 1 hdrop
  refine ⟨0, 52, _, hrun, front, wide, next, t, hrow, ?_, hwide⟩
  rw [hfront]
  rfl

/-- Reading breaks down exactly on the overfull pools, at the place before the first. -/
theorem ofBytes_outside_iff (data : Text) (place size : Nat) :
    ofBytes data = .error (.outside place size) ↔
      place = 65535 ∧ size = 65534 ∧ Overfull data := by
  have hfile : ofBytes data = .error (.outside place size) ↔
      file.run { data } = .error (.outside place size) := by
    rw [ofBytes]
    cases file.run { data } <;> simp [Except.map]
  rw [hfile]
  constructor
  · intro h
    obtain ⟨⟨minor, major, count⟩, s, hheader, h⟩ := run_bind_outside safe_header h
    rw [StateT.run_bind] at h
    obtain h | ⟨⟨pool, t⟩, _, h⟩ := except_bind_error h
    · obtain ⟨hplace, hsize, rfl, hover⟩ := (entriesFrom_outside_iff (by decide) _ s).1 h
      exact ⟨hplace, hsize, minor, major, s, hheader, hover⟩
    · exact absurd h (safe_classBody minor major pool t place size)
  · rintro ⟨hplace, hsize, minor, major, s, hheader, hover⟩
    have hentries := (entriesFrom_outside_iff (by decide) (Vector.replicate _ none) s).2
      ⟨hplace, hsize, rfl, hover⟩
    rw [file, StateT.run_bind, hheader]
    change (entriesFrom 1 (Vector.replicate _ none) >>= _).run s = _
    rw [StateT.run_bind, hentries]
    rfl

/-- A long at the last index and one more entry. -/
theorem ofBytes_outside_long :
    let data := fullBytes (List.replicate 65533 (.cls 0) ++ [.long 0, .cls 0])
    Overfull data ∧ ofBytes data = .error (.outside 65535 65534) := by
  have hsound : ∀ e ∈ List.replicate 65533 (Entry.cls 0) ++ [.long 0, .cls 0], e.IsSound := by
    intro e he
    rw [List.mem_append, List.mem_replicate] at he
    obtain ⟨_, rfl⟩ | he := he
    · trivial
    · rw [List.mem_cons, List.mem_singleton] at he
      obtain rfl | rfl := he <;> trivial
  have hfront : slotsOf (List.replicate 65533 (.cls 0)) = 65533 := by
    rw [slotsOf, List.map_replicate, List.sum_replicate_nat]
    rfl
  have hover := overfull_fullBytes hsound hfront rfl
  exact ⟨hover, (ofBytes_outside_iff _ _ _).2 ⟨rfl, rfl, hover⟩⟩

end Javelin.ClassFile
