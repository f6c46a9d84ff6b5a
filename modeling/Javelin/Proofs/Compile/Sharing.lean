import Mathlib.Data.List.Basic
import Mathlib.Data.Nat.ModEq
import Javelin.Compile.Run
import Javelin.Proofs.Compile.Turns

/-!
# What each worker compiles

Several workers compile a share of the files each. A file is at one place of one share, and its
result is the one at that place of the worker's results.

1. What every step of compiling keeps: the results stand in the order of the files, and a problem
   belongs to the file that it names (`Run.Fits`).
2. Dealing out and putting together (`getElem?_share`, `getElem?_deal`).
3. The results with any number of workers (`compileShared_results`).
-/

namespace Javelin

theorem Problem.Collector.mem_sorted {c : Collector} {p : Problem} :
    p ∈ c.sorted ↔ p ∈ c.problems := by
  simp [sorted, sort, toList]

namespace Compile

/-! ## What compiling keeps -/

/-- The work on a file as it may stand before the files are closed as cancelled. -/
structure UnitRun.Fits (f : SourceFile) (u : UnitRun) : Prop where
  source : u.source = f
  file : u.result.file = f.name
  found : ∀ p ∈ u.found.problems, p.file = f.name
  problems : ∀ p ∈ u.result.problems, p.file = f.name
  outcome : u.result.outcome ≠ .cancelled

/-- Each file is worked on at its place. -/
structure Run.Fits (files : List SourceFile) (r : Run) : Prop where
  size : r.units.size = files.length
  fits : ∀ {i : Nat} {f : SourceFile}, files[i]? = some f → (r.unitAt i).Fits f

variable {files : List SourceFile} {α β : Type}

theorem noting_files {limit : Nat} {name : Text} {c d : Problem.Collector × Bool}
    (h : Relation.ReflTransGen (Noting limit name) c d) (hc : ∀ p ∈ c.1.problems, p.file = name) :
    ∀ p ∈ d.1.problems, p.file = name := by
  induction h with
  | refl => exact hc
  | tail _ hstep ih =>
    obtain ⟨q, hq, -, rfl⟩ := hstep
    intro p hp
    dsimp only [Problem.Collector.report] at hp
    split at hp
    · exact ih p hp
    rcases Array.mem_push.mp hp with hp | rfl
    · exact ih p hp
    · exact hq

namespace UnitRun.Fits

variable {f : SourceFile} {u v : UnitRun}

theorem goes {limit : Nat} (h : u.Fits f) (hgoes : u.Goes limit v) : v.Fits f where
  source := hgoes.source.trans h.source
  file := hgoes.file.trans h.file
  found := noting_files (h.source ▸ hgoes.noted) h.found
  problems := hgoes.problems.symm ▸ h.problems
  outcome := hgoes.outcome.symm ▸ h.outcome

theorem closed (h : u.Fits f) {outcome : Outcome} {abort : Option Abort}
    (ho : outcome ≠ .cancelled) : (u.closed outcome abort).Fits f :=
  { h with
    problems := fun p hp => h.found p (Problem.Collector.mem_sorted.mp hp)
    outcome := ho }

end UnitRun.Fits

namespace Run.Fits

variable {r s : Run} {i : Nat}

theorem goes {stores : Bool} (h : r.Fits files) (hgoes : r.Goes i stores s) : s.Fits files where
  size := hgoes.size.trans h.size
  fits hf := (h.fits hf).goes (hgoes.units _)

theorem close (h : r.Fits files) {outcome : Outcome} (ho : outcome ≠ .cancelled) (i : Nat)
    (abort : Option Abort) : (r.close i outcome abort).Fits files where
  size := (Array.size_modify ..).trans h.size
  fits hf := by
    rw [unitAt_close]
    split
    · exact (h.fits hf).closed ho
    · exact h.fits hf

theorem after (h : r.Fits files) (k : Nat) : (r.after k).Fits files :=
  after_keeps (fun h hgoes => h.goes hgoes) (fun i _ abort h => h.close (by decide) i abort) h k

end Run.Fits

/-! ## The results of one worker -/

/-- What every result says, whichever way it came out. -/
structure UnitResult.Belongs (o : Options) (f : SourceFile) (u : UnitResult) : Prop where
  file : u.file = f.name
  problems : ∀ p ∈ u.problems, p.file = f.name
  outcome : u.outcome = .cancelled ↔ o.isCancelled = true

theorem start_fits (o : Options) (names : NameSource) (store : ClassStore)
    (files : List SourceFile) : (start o names store files).Fits files where
  size := size_start ..
  fits {i f} hf := by
    simp only [start, Run.unitAt, Array.getD_eq_getD_getElem?, List.getElem?_toArray,
      List.getElem?_map, hf]
    exact ⟨rfl, rfl, by simp, by simp, by simp⟩

theorem UnitRun.Fits.belongs {o : Options} {f : SourceFile} {u : UnitRun} (h : u.Fits f)
    {outcome : Outcome}
    (ho : (u.ended outcome).result.outcome = .cancelled ↔ o.isCancelled = true) :
    (u.ended outcome).result.Belongs o f := by
  refine ⟨?_, ?_, ho⟩ <;> unfold UnitRun.ended <;> split
  · exact h.file
  · exact h.file
  · exact h.problems
  · intro p hp
    exact h.found p (Problem.Collector.mem_sorted.mp hp)

theorem Run.Fits.results {o : Options} {s : Run} (h : s.Fits files) {outcome : Outcome}
    (ho : ∀ i < files.length,
      ((s.unitAt i).ended outcome).result.outcome = .cancelled ↔ o.isCancelled = true)
    (i : Nat) : Option.Rel (fun f u => u.Belongs o f) files[i]?
      (s.closeAll outcome).toReport.results[i]? := by
  rw [getElem?_results, h.size]
  split
  next hi =>
    rw [List.getElem?_eq_getElem hi]
    exact .some ((h.fits (List.getElem?_eq_getElem hi)).belongs (ho i hi))
  next hi =>
    rw [List.getElem?_eq_none (Nat.le_of_not_lt hi)]
    exact .none

/-- The results stand in the order of the files. -/
theorem compile_results (o : Options) (names : NameSource) (store : ClassStore)
    (files : List SourceFile) (i : Nat) : Option.Rel (fun f u => u.Belongs o f) files[i]?
      (compile o names store files).results[i]? := by
  obtain ⟨k, hk, hstop, hrun⟩ := compileUntil_eq (fun _ => o.isCancelled) o names store files
  have hafter := (start_fits o names store files).after k
  unfold compile
  rw [hrun]
  refine hafter.results (fun j hj => ?_) i
  by_cases hc : o.isCancelled = true
  · obtain rfl : k = 0 := hstop.none hc (by rw [size_start]; omega) (start_isDone ..)
    rw [if_pos (by omega)]
    refine iff_of_true ?_ hc
    rw [Run.after_zero, UnitRun.ended, if_neg (Bool.eq_false_iff.mp (start_isDone ..))]
    rfl
  · have hall := hstop.all fun _ => Bool.eq_false_iff.mpr hc
    rw [size_start] at hall
    rw [if_neg (Nat.not_lt.mpr hall)]
    refine iff_of_false ?_ hc
    unfold UnitRun.ended
    split
    · exact (hafter.fits (List.getElem?_eq_getElem hj)).outcome
    · change Outcome.completed ≠ .cancelled
      decide

/-! ## Dealing out and putting together -/

theorem getElem?_share {α : Type} {n w : Nat} (hw : w < n) (xs : List α) (k : Nat) :
    (share n w xs)[k]? = xs[w + k * n]? := by
  -- From a start `s` of the count, the first place dealt to `w` is `d` places off.
  have from_start (s d : Nat) (hd : d < n) (hs : (s + d) % n = w) :
      ((xs.zipIdx s).filterMap fun p => if p.2 % n == w then some p.1 else none)[k]? =
        xs[d + k * n]? := by
    induction xs generalizing s d k with
    | nil => simp
    | cons x xs ih =>
      rw [List.zipIdx_cons]
      cases d with
      | zero =>
        have hs' : (s % n == w) = true := by simpa using hs
        rw [List.filterMap_cons_some (by exact if_pos hs')]
        cases k with
        | zero => simp
        | succ k =>
          rw [List.getElem?_cons_succ, ih k (s + 1) (n - 1) (by omega)]
          · rw [show 0 + (k + 1) * n = n - 1 + k * n + 1 by rw [Nat.succ_mul]; omega,
              List.getElem?_cons_succ]
          · rw [show s + 1 + (n - 1) = s + n by omega, Nat.add_mod_right]
            simpa using hs
      | succ d =>
        have hs' : ¬ (s % n == w) = true := by
          intro h
          have hmod : s + (d + 1) ≡ s + 0 [MOD n] := hs.trans (beq_iff_eq.mp h).symm
          have := Nat.ModEq.add_left_cancel' s hmod
          rw [Nat.ModEq, Nat.mod_eq_of_lt hd] at this
          simp at this
        rw [List.filterMap_cons_none (by exact if_neg hs'),
          ih k (s + 1) d (by omega) (by rw [← hs]; congr 1; omega),
          show d + 1 + k * n = d + k * n + 1 by omega, List.getElem?_cons_succ]
  exact from_start 0 w hw (by rw [Nat.zero_add, Nat.mod_eq_of_lt hw])

theorem getElem?_filterMap_range {α : Type} {g : Nat → Option α} {n : Nat}
    (h : ∀ i < n, (g i).isSome) (i : Nat) :
    ((List.range n).filterMap g)[i]? = if i < n then g i else none := by
  induction n generalizing i with
  | zero => rfl
  | succ n ih =>
    replace ih := ih fun i hi => h i (hi.trans n.lt_succ_self)
    obtain ⟨a, ha⟩ := Option.isSome_iff_exists.mp (h n n.lt_succ_self)
    have hlength : ((List.range n).filterMap g).length = n :=
      (List.filterMap_length_eq_length.mpr fun i hi =>
        h i ((List.mem_range.mp hi).trans n.lt_succ_self)).trans List.length_range
    rw [List.range_succ, List.filterMap_append, List.getElem?_append, hlength, ih]
    rcases lt_trichotomy i n with hi | rfl | hi
    · simp [hi, hi.trans n.lt_succ_self]
    · simp [ha]
    · rw [if_neg (by omega), if_neg (by omega)]
      simp [ha]
      omega

/-- The element at a place comes from its share. -/
theorem getElem?_deal {α : Type} {n total : Nat} {shares : Nat → List α} (hn : 0 < n)
    (h : ∀ i, (shares (i % n))[i / n]?.isSome ↔ i < total) (i : Nat) :
    (deal total ((List.range n).map shares))[i]? = (shares (i % n))[i / n]? := by
  have hplace (j : Nat) : (((List.range n).map shares)[j % n]?).bind (·[j / n]?) =
      (shares (j % n))[j / n]? := by
    rw [List.getElem?_map, List.getElem?_range (Nat.mod_lt j hn), Option.map_some, Option.bind_some]
  unfold deal
  rw [List.length_map, List.length_range]
  simp only [hplace]
  rw [getElem?_filterMap_range fun j => (h j).mpr]
  split
  · rfl
  next hi => exact (Option.not_isSome_iff_eq_none.mp (mt (h i).mp hi)).symm

/-! ## The results of all workers -/

/-- The classes that are stored before a worker starts. -/
def storeBefore (o : Options) (names : NameSource) (n : Nat) (files : List SourceFile) :
    Nat → ClassStore
  | 0 => {}
  | w + 1 => (compile o names (storeBefore o names n files w) (share n w files)).store

/-- What a worker gives for its share. -/
def reportOf (o : Options) (names : NameSource) (n : Nat) (files : List SourceFile) (w : Nat) :
    Report :=
  compile o names (storeBefore o names n files w) (share n w files)

theorem reports_run (o : Options) (names : NameSource) (n : Nat) (files : List SourceFile)
    (m : Nat) : (List.range m).foldl (fun (store, reports) w =>
      let r := compile o names store (share n w files)
      (r.store, reports ++ [r])) (({} : ClassStore), ([] : List Report)) =
    (storeBefore o names n files m, (List.range m).map (reportOf o names n files)) := by
  induction m with
  | zero => rfl
  | succ m ih =>
    rw [List.range_succ, List.foldl_append, ih, List.map_append]
    rfl

/-- The names among which several workers look for types: those that the files declare first. -/
def sharedNames (o : Options) (names : NameSource) (files : List SourceFile) : NameSource :=
  .chain [(sharedSources o.level files).names, names]

theorem isSome_of_rel {r : α → β → Prop} {a : Option α} {b : Option β} (h : Option.Rel r a b) :
    a.isSome = b.isSome := by
  cases h <;> rfl

theorem compileShared_alone {o : Options} {names : NameSource} {workers : Nat}
    (h : min workers files.length ≤ 1) :
    compileShared o names files workers = compile o names {} files :=
  if_pos h

theorem compileShared_several {o : Options} {names : NameSource} {workers : Nat}
    (h : ¬ min workers files.length ≤ 1) : (compileShared o names files workers).results =
      deal files.length ((List.range (min workers files.length)).map fun w =>
        (reportOf o (sharedNames o names files) (min workers files.length) files w).results) := by
  have hcompile (names : NameSource) (store : ClassStore) (files : List SourceFile) :
      compileUntil (fun _ => o.isCancelled) o names store files = compile o names store files := rfl
  unfold compileShared compileSharedUntil
  simp only [if_neg h, hcompile, reports_run, List.map_map]
  rfl

/-- The file at a place belongs to one worker, and stands at one place of its share. -/
theorem reportOf_results (o : Options) (names : NameSource) {n : Nat} (hn : 0 < n)
    (files : List SourceFile) (i : Nat) : Option.Rel (fun f u => u.Belongs o f) files[i]?
      (reportOf o names n files (i % n)).results[i / n]? := by
  have hplace : (share n (i % n) files)[i / n]? = files[i]? := by
    rw [getElem?_share (Nat.mod_lt i hn), Nat.mod_add_div' i n]
  exact hplace ▸ compile_results ..

theorem getElem?_compileShared {o : Options} {names : NameSource} {workers : Nat}
    (h : ¬ min workers files.length ≤ 1) (i : Nat) :
    let n := min workers files.length
    (compileShared o names files workers).results[i]? =
      (reportOf o (sharedNames o names files) n files (i % n)).results[i / n]? := by
  intro n
  have hn : 0 < n := by omega
  rw [compileShared_several h]
  refine getElem?_deal hn (fun j => ?_) i
  have hrel := reportOf_results o (sharedNames o names files) hn files j
  rw [← isSome_of_rel hrel]
  simp

/-- The result at a place is that of the file at this place: with one worker that of compiling all
files together, with several workers that of its place in its share. -/
theorem compileShared_results (o : Options) (names : NameSource) (files : List SourceFile)
    (workers i : Nat) :
    let n := min workers files.length
    let result := (compileShared o names files workers).results[i]?
    Option.Rel (fun f u => u.Belongs o f) files[i]? result ∧
      result = if n ≤ 1 then (compile o names {} files).results[i]?
        else (reportOf o (sharedNames o names files) n files (i % n)).results[i / n]? := by
  intro n result
  by_cases hn : n ≤ 1
  · have halone : result = (compile o names {} files).results[i]? := by
      unfold result
      rw [compileShared_alone hn]
    rw [if_pos hn, halone]
    exact ⟨compile_results o names {} files i, rfl⟩
  · have hseveral : result = _ := getElem?_compileShared hn i
    rw [if_neg hn]
    exact ⟨hseveral ▸ reportOf_results o _ (by omega) files i, hseveral⟩

end Compile

end Javelin
