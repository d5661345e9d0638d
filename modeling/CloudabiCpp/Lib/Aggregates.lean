import Mathlib.Data.Multiset.Bind
import Mathlib.Tactic.Abel
import CloudabiCpp.Lib.Declarations

/-!
Classes with anonymous unions: where their fields are found, and which of them
share storage. Members of a struct lie side by side; those of a union lie on top
of one another.
-/

namespace CloudabiCpp.Lib.Aggregates

open CloudabiCpp.Lib.Lexer
open CloudabiCpp.Lib.Declarations

/-- A member of a class. The members of an anonymous union are members of the
class around it, those of a struct are reached through its name. -/
inductive Member where
  | field (type : CType) (name : Word)
  | union (members : List Member)
  | struct (members : List Member) (name : Word)

structure Field where
  path : List Word
  type : CType
  deriving DecidableEq

def Field.under (name : Word) (field : Field) : Field :=
  { field with path := name :: field.path }

mutual

def fields : List Member → List Field
  | [] => []
  | m :: ms => memberFields m ++ fields ms
termination_by structural ms => ms

def memberFields : Member → List Field
  | .field type name => [⟨[name], type⟩]
  | .union ms => fields ms
  | .struct ms name => (fields ms).map (Field.under name)
termination_by structural m => m

end

theorem fields_eq (ms : List Member) : fields ms = (ms.map memberFields).flatten := by
  induction ms with
  | nil => rfl
  | cons m ms ih => rw [fields, ih, List.map_cons, List.flatten_cons]

theorem fields_append (ms more : List Member) : fields (ms ++ more) = fields ms ++ fields more := by
  rw [fields_eq, List.map_append, List.flatten_append, ← fields_eq, ← fields_eq]

section CrossPairs

variable {α β : Type*}

/-- The pairs of elements of two different groups. -/
def crossPairs : List (List α) → List (α × α)
  | [] => []
  | group :: groups => group ×ˢ groups.flatten ++ crossPairs groups

theorem coe_crossPairs_cons (group : List α) (groups : List (List α)) :
    (crossPairs (group :: groups) : Multiset (α × α)) =
      (group : Multiset α) ×ˢ (groups.flatten : Multiset α) + crossPairs groups := by
  rw [crossPairs, ← Multiset.coe_add, Multiset.coe_product]

theorem crossPairs_singleton (group : List α) : crossPairs [group] = [] := by
  simp [crossPairs]

theorem product_map (f : α → β) (xs ys : List α) :
    xs.map f ×ˢ ys.map f = (xs ×ˢ ys).map (Prod.map f f) := by
  induction xs with
  | nil => rfl
  | cons x xs ih => simp [List.product_cons, ih]

theorem crossPairs_map (f : α → β) (groups : List (List α)) :
    crossPairs (groups.map (List.map f)) = (crossPairs groups).map (Prod.map f f) := by
  induction groups with
  | nil => rfl
  | cons group groups ih =>
      rw [List.map_cons, crossPairs, crossPairs, ih, List.map_append, ← List.map_flatten,
        product_map]

theorem crossPairs_append (groups more : List (List α)) :
    (crossPairs (groups ++ more)).Perm
      (crossPairs groups ++ crossPairs more ++ groups.flatten ×ˢ more.flatten) := by
  rw [← Multiset.coe_eq_coe]
  induction groups with
  | nil => simp [crossPairs]
  | cons group groups ih =>
      rw [List.cons_append, coe_crossPairs_cons, ih, List.flatten_append]
      simp only [← Multiset.coe_add, coe_crossPairs_cons, Multiset.product_add, List.flatten_cons,
        ← Multiset.coe_product, Multiset.add_product]
      abel

/-- Groups of groups: the pairs from different clusters, and those from one. -/
theorem crossPairs_flatten (clusters : List (List (List α))) :
    (crossPairs clusters.flatten).Perm
      (crossPairs (clusters.map List.flatten) ++ clusters.flatMap crossPairs) := by
  induction clusters with
  | nil => exact List.Perm.nil
  | cons cluster clusters ih =>
      rw [List.flatten_cons, List.map_cons, List.flatMap_cons]
      refine (crossPairs_append cluster clusters.flatten).trans ?_
      rw [← Multiset.coe_eq_coe] at ih ⊢
      simp only [← Multiset.coe_add] at ih ⊢
      rw [ih, coe_crossPairs_cons, ← List.flatten_flatten, Multiset.coe_product]
      abel

theorem crossPairs_eq_nil_iff {groups : List (List α)} :
    crossPairs groups = [] ↔ groups.Pairwise fun xs ys => xs = [] ∨ ys = [] := by
  induction groups with
  | nil => simp [crossPairs]
  | cons group groups ih =>
      rw [crossPairs, List.append_eq_nil_iff, ih, List.pairwise_cons]
      apply and_congr_left
      intro _
      rw [← List.length_eq_zero_iff, List.length_product, Nat.mul_eq_zero,
        List.length_eq_zero_iff, List.length_eq_zero_iff, List.flatten_eq_nil_iff]
      exact forall_or_left.symm.trans (by simp [imp_iff_not_or, or_left_comm])

end CrossPairs

mutual

/-- The pairs of fields that share storage. -/
def overlaps : List Member → List (Field × Field)
  | [] => []
  | m :: ms => memberOverlaps m ++ overlaps ms
termination_by structural ms => ms

def memberOverlaps : Member → List (Field × Field)
  | .field _ _ => []
  | .union ms => crossPairs (ms.map memberFields) ++ overlaps ms
  | .struct ms name => (overlaps ms).map (Prod.map (Field.under name) (Field.under name))
termination_by structural m => m

end

theorem overlaps_append (ms more : List Member) :
    overlaps (ms ++ more) = overlaps ms ++ overlaps more := by
  induction ms with
  | nil => rfl
  | cons m ms ih => rw [List.cons_append, overlaps, ih, overlaps, List.append_assoc]

mutual

/-- The members with every type replaced. -/
def retype (f : CType → CType) : List Member → List Member
  | [] => []
  | m :: ms => retypeMember f m :: retype f ms
termination_by structural ms => ms

def retypeMember (f : CType → CType) : Member → Member
  | .field type name => .field (f type) name
  | .union ms => .union (retype f ms)
  | .struct ms name => .struct (retype f ms) name
termination_by structural m => m

end

theorem retype_append (f : CType → CType) (ms more : List Member) :
    retype f (ms ++ more) = retype f ms ++ retype f more := by
  induction ms with
  | nil => rfl
  | cons m ms ih => rw [List.cons_append, retype, ih, retype, List.cons_append]

end CloudabiCpp.Lib.Aggregates
