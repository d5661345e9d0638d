import Mathlib.Data.List.GetD
import CloudabiCpp.Argdata.Traversal

/-!
`create_map`, `create_seq`, `get_map` and `get_seq`, and the loops over what
they return.
-/

namespace CloudabiCpp.Argdata.Containers

open CloudabiCpp.Lib.Blocks
open CloudabiCpp.Argdata.Cursor
open CloudabiCpp.Argdata.Iterator
open CloudabiCpp.Argdata.Traversal

variable {ι A C V : Type}

/-- The rest of the library: `argdata_*_iterate`, which returns an error code and
sets a cursor, and `argdata_create_*`, which is given one pointer array for each
output of `next` and the number of entries. A cursor that was set without error
yields finitely many valid entries; a created value yields the given pointers. -/
structure Api (ι A C V : Type) where
  lib : Library ι C V
  iterate : A → Nat × C
  create : (ι → List Nat) → Nat → A
  iterates : ∀ a, (iterate a).1 = 0 → ∃ K : Container lib, K.start = (iterate a).2
  creates : ∀ arrays n, (∀ i, n ≤ (arrays i).length) →
    (∀ i, ∀ p ∈ (arrays i).take n, p ≠ 0) →
    (iterate (create arrays n)).1 = 0 ∧
      ∃ K : Container lib, K.start = (iterate (create arrays n)).2 ∧
        K.entries = (List.range n).map fun k i => .outside ((arrays i).getD k 0)

def createMap (api : Api Half A C V) (keys values : List Nat) : A :=
  api.create
    (fun half =>
      match half with
      | .first => keys
      | .second => values)
    (if keys.length < values.length then keys.length else values.length)

def createSeq (api : Api Unit A C V) (values : List Nat) : A :=
  api.create (fun _ => values) values.length

/-- What `get_map` and `get_seq` do: the `start_it_` of the container, unless the
library reports an error. -/
def getStart (api : Api ι A C V) (a : A) : Option C :=
  if (api.iterate a).1 ≠ 0 then none else some (api.iterate a).2

def getMap (api : Api Half A C V) (a : A) : Option C := getStart api a

def getSeq (api : Api Unit A C V) (a : A) : Option C := getStart api a

theorem getStart_eq_some_iff (api : Api ι A C V) (a : A) (start : C) :
    getStart api a = some start ↔ (api.iterate a).1 = 0 ∧ (api.iterate a).2 = start := by
  simp [getStart]

theorem visits_pointers {lib : Library ι C V} {K : Container lib} {arrays : ι → List Nat}
    {n : Nat}
    (hentries : K.entries = (List.range n).map fun k i => .outside ((arrays i).getD k 0))
    (base : Nat) (i : ι) (hn : n ≤ (arrays i).length) :
    (visits K base).map (fun visit => (visit i).1) = (arrays i).take n := by
  apply List.ext_getElem?
  intro k
  rw [List.getElem?_map, visits_getElem?, hentries, List.getElem?_take]
  by_cases hk : k < n
  · have hget : k < (arrays i).length := by omega
    simp [hk, hget, Ref.pointer]
  · simp [hk]

theorem createMap_entries (api : Api Half A C V) {keys values : List Nat}
    (hkeys : ∀ p ∈ keys.take values.length, p ≠ 0)
    (hvalues : ∀ p ∈ values.take keys.length, p ≠ 0) :
    ∃ K : Container api.lib, getMap api (createMap api keys values) = some K.start ∧
      ∀ base, (visits K base).map (fun visit => ((visit .first).1, (visit .second).1)) =
        keys.zip values := by
  let arrays : Half → List Nat := fun half =>
    match half with
    | .first => keys
    | .second => values
  let n := if keys.length < values.length then keys.length else values.length
  have hn : n = min keys.length values.length := by
    simp only [n]
    split <;> omega
  have hlength : ∀ half, n ≤ (arrays half).length := by
    intro half
    cases half <;> simp only [arrays] <;> omega
  have hnull : ∀ half, ∀ p ∈ (arrays half).take n, p ≠ 0 := by
    intro half
    cases half with
    | first => rwa [hn, Nat.min_comm, ← List.take_eq_take_min]
    | second => rwa [hn, ← List.take_eq_take_min]
  obtain ⟨hok, K, hstart, hentries⟩ := api.creates arrays n hlength hnull
  refine ⟨K, (getStart_eq_some_iff api _ _).mpr ⟨hok, hstart.symm⟩, fun base => ?_⟩
  have hfirst := visits_pointers hentries base .first (hlength .first)
  have hsecond := visits_pointers hentries base .second (hlength .second)
  calc
    (visits K base).map (fun visit => ((visit .first).1, (visit .second).1)) =
        ((visits K base).map fun visit => (visit .first).1).zip
          ((visits K base).map fun visit => (visit .second).1) := by
      rw [List.zip_map']
    _ = (keys.take n).zip (values.take n) := by rw [hfirst, hsecond]
    _ = keys.zip values := by rw [hn, ← List.zip_eq_zip_take_min]

theorem createSeq_entries (api : Api Unit A C V) {values : List Nat}
    (hvalues : ∀ p ∈ values, p ≠ 0) :
    ∃ K : Container api.lib, getSeq api (createSeq api values) = some K.start ∧
      ∀ base, (visits K base).map (fun visit => (visit ()).1) = values := by
  obtain ⟨hok, K, hstart, hentries⟩ :=
    api.creates (fun _ => values) values.length (fun _ => Nat.le_refl _)
      (fun _ => by rwa [List.take_length])
  refine ⟨K, (getStart_eq_some_iff api _ _).mpr ⟨hok, hstart.symm⟩, fun base => ?_⟩
  rw [visits_pointers hentries base () (Nat.le_refl _), List.take_length]

/-- Loops over what `get_map` and `get_seq` return visit every entry once, in
order, and stop, however many of them are interleaved; over a created map or
sequence they see the pointers it was created from. -/
theorem loop_visits_every_entry_once :
    (∀ (api : Api Half A C V) (a : A) (start : C), getMap api a = some start →
      ∃ K : Container api.lib, K.start = start ∧
        VisitsInOrder (MapIterator.copyConstruct api.lib) K) ∧
    (∀ (api : Api Unit A C V) (a : A) (start : C), getSeq api a = some start →
      ∃ K : Container api.lib, K.start = start ∧
        VisitsInOrder (SeqIterator.copyConstruct api.lib) K) ∧
    (∀ (api : Api Half A C V) (keys values : List Nat),
      (∀ p ∈ keys.take values.length, p ≠ 0) → (∀ p ∈ values.take keys.length, p ≠ 0) →
      ∃ K : Container api.lib, getMap api (createMap api keys values) = some K.start ∧
        VisitsInOrder (MapIterator.copyConstruct api.lib) K ∧
        ∀ base, (visits K base).map (fun visit => ((visit .first).1, (visit .second).1)) =
          keys.zip values) ∧
    (∀ (api : Api Unit A C V) (values : List Nat), (∀ p ∈ values, p ≠ 0) →
      ∃ K : Container api.lib, getSeq api (createSeq api values) = some K.start ∧
        VisitsInOrder (SeqIterator.copyConstruct api.lib) K ∧
        ∀ base, (visits K base).map (fun visit => (visit ()).1) = values) := by
  have : Nonempty Half := ⟨.first⟩
  refine ⟨?_, ?_, ?_, ?_⟩
  · intro api a start hget
    obtain ⟨hok, rfl⟩ := (getStart_eq_some_iff api a start).mp hget
    obtain ⟨K, hstart⟩ := api.iterates a hok
    exact ⟨K, hstart, visitsInOrder _ K⟩
  · intro api a start hget
    obtain ⟨hok, rfl⟩ := (getStart_eq_some_iff api a start).mp hget
    obtain ⟨K, hstart⟩ := api.iterates a hok
    exact ⟨K, hstart, visitsInOrder _ K⟩
  · intro api keys values hkeys hvalues
    obtain ⟨K, hget, hvisits⟩ := createMap_entries api hkeys hvalues
    exact ⟨K, hget, visitsInOrder _ K, hvisits⟩
  · intro api values hvalues
    obtain ⟨K, hget, hvisits⟩ := createSeq_entries api hvalues
    exact ⟨K, hget, visitsInOrder _ K, hvisits⟩

theorem cursorSize_pos : 0 < 16 := by decide

/-- A library whose argdata are lists of entries; it refuses invalid ones. -/
def listApi (ι : Type) [Fintype ι] : Api ι (List (ι → Ref)) (List (ι → Ref)) Nat where
  lib := listLibrary ι 16 cursorSize_pos (fun rest off => 10 * rest.length + off) (fun p => p)
  iterate := fun entries =>
    if ∀ e ∈ entries, ∀ i, (e i).Valid 16 then (0, entries) else (1, [])
  create := fun arrays n => (List.range n).map fun k i => .outside ((arrays i).getD k 0)
  iterates := by
    intro entries hok
    by_cases hvalid : ∀ e ∈ entries, ∀ i, (e i).Valid 16
    · rw [if_pos hvalid]
      exact ⟨listContainer entries hvalid, rfl⟩
    · rw [if_neg hvalid] at hok
      cases hok
  creates := by
    intro arrays n hlength hnull
    have hvalid : ∀ e ∈ (List.range n).map fun k (i : ι) =>
        Ref.outside ((arrays i).getD k 0), ∀ i, (e i).Valid 16 := by
      intro e he i
      obtain ⟨k, hk, rfl⟩ := List.mem_map.mp he
      have hkn := List.mem_range.mp hk
      have hget : k < (arrays i).length := Nat.lt_of_lt_of_le hkn (hlength i)
      change (arrays i).getD k 0 ≠ 0
      rw [List.getD_eq_getElem _ _ hget]
      exact hnull i _ (List.mem_take_iff_getElem.mpr ⟨k, by omega, rfl⟩)
    rw [if_pos hvalid]
    exact ⟨rfl, listContainer _ hvalid, rfl, rfl⟩

theorem loop_visits_every_entry_once_listApi :
    ∃ K : Container (listApi Half).lib,
      getMap (listApi Half) (createMap (listApi Half) [5000, 6000, 0] [7000, 7000]) =
          some K.start ∧
        VisitsInOrder (MapIterator.copyConstruct (listApi Half).lib) K ∧
        ∀ base, (visits K base).map (fun visit => ((visit .first).1, (visit .second).1)) =
          [5000, 6000, 0].zip [7000, 7000] :=
  loop_visits_every_entry_once.2.2.1 (listApi Half) [5000, 6000, 0] [7000, 7000]
    (by decide) (by decide)

end CloudabiCpp.Argdata.Containers
