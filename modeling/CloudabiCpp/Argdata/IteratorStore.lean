import CloudabiCpp.Lib.LiveObjects
import CloudabiCpp.Lib.Runs
import CloudabiCpp.Argdata.Iterator

/-!
Any number of iterator objects over one container, and what each of them is for:
an independent logical position. The concrete machine runs the members of the
iterator classes on objects at addresses; the abstract machine keeps a position
for each object and nothing else. It says of its own what an operation is for, and
the code of the operation is then shown to do that. Positions count the entries
before the denoted one, and `none` is an iterator that has no cursor (`end()` and its
copies).
-/

namespace CloudabiCpp.Argdata.IteratorStore

open CloudabiCpp.Lib.Blocks
open CloudabiCpp.Lib.LiveObjects
open CloudabiCpp.Lib.Runs
open CloudabiCpp.Argdata.Cursor
open CloudabiCpp.Argdata.Iterator

variable {ι C V : Type} {lib : Library ι C V}

/-- One member function executed on objects whose `it_` are at the addresses. -/
inductive Prim (C : Type) where
  | begin (a : Nat)
  | default (a : Nat) (it : C)
  | copy (a b : Nat)
  | assign (a b : Nat)
  | increment (a : Nat)
  | destroy (a : Nat)

/-- What a program writes. A function that returns a local iterator builds it in
place of the result when the copy is elided, and otherwise at the address
given by `via`. -/
inductive Op (C : Type) where
  | begin (result : Nat) (via : Option Nat)
  | pastEnd (result : Nat) (it : C)
  | copy (result other : Nat)
  | assign (self other : Nat)
  | increment (self : Nat)
  | postIncrement (result self : Nat) (via : Option Nat)
  | destroy (self : Nat)

namespace Op

def code : Op C → List (Prim C)
  | .begin result none => [.begin result]
  | .begin result (some i) => [.begin i, .copy result i, .destroy i]
  | .pastEnd result it => [.default result it]
  | .copy result other => [.copy result other]
  | .assign self other => [.assign self other]
  | .increment self => [.increment self]
  | .postIncrement result self none => [.copy result self, .increment self]
  | .postIncrement result self (some i) =>
      [.copy i self, .increment self, .copy result i, .destroy i]
  | .destroy self => [.destroy self]

end Op

abbrev Store (ι C : Type) := Objects (CachedIterator ι C)

abbrev Positions := Objects (Option Nat)

namespace Store

def exec (copyConstruct : CopyConstructor ι C) (K : Container lib) (s : Store ι C) :
    Prim C → Store ι C
  | .begin a => s.place a (CachedIterator.begin K a)
  | .default a it => s.place a (CachedIterator.default it)
  | .copy a b => s.place a (copyConstruct a b (s.obj b))
  | .assign a b => s.put a (CachedIterator.assign lib a b (s.obj b))
  | .increment a => s.put a (CachedIterator.increment lib a (s.obj a))
  | .destroy a => s.remove a

def apply (copyConstruct : CopyConstructor ι C) (K : Container lib) (s : Store ι C)
    (op : Op C) : Store ι C :=
  run (exec copyConstruct K) s op.code

/-- The argdata found at an address: inside a live cursor it is made of the
bytes that cursor has now. -/
def read (lib : Library ι C V) (s : Store ι C) (p : Nat) : V :=
  match owner lib.size s.live p with
  | some a => lib.inner (s.obj a).it (p - a)
  | none => lib.outer p

end Store

namespace Positions

def exec (P : Positions) : Prim C → Positions
  | .begin a => P.place a (some 0)
  | .default a _ => P.place a none
  | .copy a b => P.place a (P.obj b)
  | .assign a b => P.put a (P.obj b)
  | .increment a => P.put a ((P.obj a).map (· + 1))
  | .destroy a => P.remove a

/-- Storage for a new object: not at the null address, apart from the live
cursors and from the entries that lie outside. -/
def Free (K : Container lib) (P : Positions) (a : Nat) : Prop :=
  a ≠ 0 ∧ (∀ b ∈ P.live, Apart lib.size a b) ∧ K.ClearOf a

/-- What a member function is owed: objects are created on free storage and used
while alive, and only an iterator that came from `begin()` is advanced. -/
def Legal (K : Container lib) (P : Positions) : Prim C → Prop
  | .begin a => Free K P a
  | .default a _ => Free K P a
  | .copy a b => Free K P a ∧ b ∈ P.live
  | .assign a b => a ∈ P.live ∧ b ∈ P.live
  | .increment a => a ∈ P.live ∧ (P.obj a).isSome
  | .destroy a => a ∈ P.live

/-- What an operation is for: `begin()` is at the first entry, a copy is where its
original is, `++` goes on by one, and `it++` leaves its result where `it` was. -/
def apply (P : Positions) : Op C → Positions
  | .begin result _ => P.place result (some 0)
  | .pastEnd result _ => P.place result none
  | .copy result other => P.place result (P.obj other)
  | .assign self other => P.put self (P.obj other)
  | .increment self => P.put self ((P.obj self).map (· + 1))
  | .postIncrement result self _ =>
      (P.put self ((P.obj self).map (· + 1))).place result (P.obj self)
  | .destroy self => P.remove self

/-- Storage for a result, and for the local iterator that it is copied from. -/
def FreeFor (K : Container lib) (P : Positions) (result : Nat) (via : Option Nat) : Prop :=
  Free K P result ∧ ∀ i ∈ via, Free K P i ∧ Apart lib.size result i

/-- What the program owes an operation. -/
def Allows (K : Container lib) (P : Positions) : Op C → Prop
  | .begin result via => FreeFor K P result via
  | .pastEnd result _ => Free K P result
  | .copy result other => Free K P result ∧ other ∈ P.live
  | .assign self other => self ∈ P.live ∧ other ∈ P.live
  | .increment self => self ∈ P.live ∧ (P.obj self).isSome
  | .postIncrement result self via =>
      FreeFor K P result via ∧ self ∈ P.live ∧ (P.obj self).isSome
  | .destroy self => self ∈ P.live

instance [Fintype ι] (K : Container lib) (P : Positions) (a : Nat) :
    Decidable (Free K P a) :=
  inferInstanceAs (Decidable (_ ∧ _))

instance [Fintype ι] (K : Container lib) (P : Positions) (result : Nat) (via : Option Nat) :
    Decidable (FreeFor K P result via) :=
  inferInstanceAs (Decidable (_ ∧ _))

instance [Fintype ι] (K : Container lib) (P : Positions) :
    (op : Op C) → Decidable (Allows K P op)
  | .begin result via => inferInstanceAs (Decidable (FreeFor K P result via))
  | .pastEnd result _ => inferInstanceAs (Decidable (Free K P result))
  | .copy _ _ => inferInstanceAs (Decidable (_ ∧ _))
  | .assign _ _ => inferInstanceAs (Decidable (_ ∧ _))
  | .increment _ => inferInstanceAs (Decidable (_ ∧ _))
  | .postIncrement _ _ _ => inferInstanceAs (Decidable (_ ∧ _))
  | .destroy self => inferInstanceAs (Decidable (self ∈ P.live))

end Positions

def noPositions : Positions where
  live := []
  obj := fun _ => none

def noObjects (bytes : Nat → CachedIterator ι C) : Store ι C where
  live := []
  obj := bytes

def Denotes (K : Container lib) (a : Nat) (x : CachedIterator ι C) : Option Nat → Prop
  | none => ∀ i, x.value i = 0
  | some k => CachedIterator.At K a k x

/-- Live cursors share no byte with one another or with an outside entry. -/
structure Placed (K : Container lib) (P : Positions) : Prop where
  nonnull : ∀ a ∈ P.live, a ≠ 0
  apart : P.live.Pairwise (Apart lib.size)
  clear : ∀ a ∈ P.live, K.ClearOf a

structure Simulates (K : Container lib) (s : Store ι C) (P : Positions) : Prop where
  placed : Placed K P
  related : Related (Denotes K) s P

/-- The copy that is made at this step, if any, denotes the same position. -/
def CopiesPosition (copyConstruct : CopyConstructor ι C) (K : Container lib)
    (P : Positions) : Prim C → Prop
  | .copy a b => K.ClearOf b → ∀ x, Denotes K b x (P.obj b) →
      Denotes K a (copyConstruct a b x) (P.obj b)
  | .assign a b => K.ClearOf b → ∀ x, Denotes K b x (P.obj b) →
      Denotes K a (CachedIterator.assign lib a b x) (P.obj b)
  | _ => True

theorem Placed.place {K : Container lib} {P : Positions} {a : Nat} (h : Placed K P)
    (hfree : P.Free K a) (pos : Option Nat) : Placed K (P.place a pos) where
  nonnull := by
    intro b hb
    rcases List.mem_cons.mp hb with rfl | hb
    · exact hfree.1
    · exact h.nonnull b hb
  apart := List.pairwise_cons.mpr ⟨hfree.2.1, h.apart⟩
  clear := by
    intro b hb
    rcases List.mem_cons.mp hb with rfl | hb
    · exact hfree.2.2
    · exact h.clear b hb

theorem Placed.remove {K : Container lib} {P : Positions} (h : Placed K P) (a : Nat) :
    Placed K (P.remove a) where
  nonnull := fun b hb => h.nonnull b (List.mem_of_mem_erase hb)
  apart := h.apart.sublist List.erase_sublist
  clear := fun b hb => h.clear b (List.mem_of_mem_erase hb)

theorem Denotes.assign {K : Container lib} {b : Nat} {x : CachedIterator ι C}
    {pos : Option Nat} (hdenotes : Denotes K b x pos) (hfirst : K.PastFirstByte)
    (hclear : K.ClearOf b) (a : Nat) :
    Denotes K a (CachedIterator.assign lib a b x) pos := by
  cases pos with
  | none => exact fun i => CachedIterator.assign_null a b hdenotes i
  | some k => exact CachedIterator.At.assign hdenotes hfirst hclear a

theorem simulates_noObjects (K : Container lib) (bytes : Nat → CachedIterator ι C) :
    Simulates K (noObjects bytes) noPositions where
  placed := ⟨by simp [noPositions], List.Pairwise.nil, by simp [noPositions]⟩
  related := ⟨rfl, by simp [noPositions]⟩

theorem simulates_exec (copyConstruct : CopyConstructor ι C) {K : Container lib}
    {s : Store ι C} {P : Positions} {op : Prim C} (hsim : Simulates K s P)
    (hlegal : P.Legal K op) (hcopy : CopiesPosition copyConstruct K P op) :
    Simulates K (s.exec copyConstruct K op) (P.exec op) := by
  obtain ⟨hplaced, hrelated⟩ := hsim
  cases op with
  | begin a =>
      exact ⟨hplaced.place hlegal _, hrelated.place (CachedIterator.begin_at K a)⟩
  | default a it =>
      exact ⟨hplaced.place hlegal _, hrelated.place fun _ => rfl⟩
  | copy a b =>
      obtain ⟨hfree, hb⟩ := hlegal
      have hcopied := hcopy (hplaced.clear b hb) _ (hrelated.obj b hb)
      exact ⟨hplaced.place hfree _, hrelated.place hcopied⟩
  | assign a b =>
      obtain ⟨-, hb⟩ := hlegal
      have hassign := hcopy (hplaced.clear b hb) _ (hrelated.obj b hb)
      exact ⟨⟨hplaced.nonnull, hplaced.apart, hplaced.clear⟩, hrelated.put hassign⟩
  | increment a =>
      obtain ⟨ha, hsome⟩ := hlegal
      obtain ⟨k, hk⟩ := Option.isSome_iff_exists.mp hsome
      have hat : CachedIterator.At K a k (s.obj a) := by
        simpa only [Denotes, hk] using hrelated.obj a ha
      refine ⟨⟨hplaced.nonnull, hplaced.apart, hplaced.clear⟩, hrelated.put ?_⟩
      rw [hk]
      exact hat.increment
  | destroy a =>
      exact ⟨hplaced.remove a, hrelated.remove a⟩

theorem simulates_run (copyConstruct : CopyConstructor ι C) {K : Container lib}
    {s : Store ι C} {P : Positions} {ops : List (Prim C)} (hsim : Simulates K s P)
    (hlegal : Along Positions.exec (Positions.Legal K) P ops)
    (hcopy : Along Positions.exec (CopiesPosition copyConstruct K) P ops) :
    Simulates K (run (Store.exec copyConstruct K) s ops) (run Positions.exec P ops) := by
  refine run_simulates ?_ hsim (hlegal.and hcopy)
  intro s P op hsim hop
  exact simulates_exec copyConstruct hsim hop.1 hop.2

theorem Simulates.of_same {K : Container lib} {s : Store ι C} {P Q : Positions}
    (hsim : Simulates K s P) (hsame : Related (fun _ p q => p = q) P Q) : Simulates K s Q where
  placed := by
    obtain ⟨hnonnull, hapart, hclear⟩ := hsim.placed
    rw [hsame.live] at hnonnull hapart hclear
    exact ⟨hnonnull, hapart, hclear⟩
  related := hsim.related.trans_eq hsame

section Code

variable {K : Container lib} {P : Positions}

theorem Positions.Free.not_mem {a : Nat} (hfree : P.Free K a) : a ∉ P.live :=
  fun ha => not_apart_self lib.size_pos (hfree.2.1 a ha)

theorem Positions.Free.ne_of_mem {a b : Nat} (hfree : P.Free K a) (hb : b ∈ P.live) : a ≠ b := by
  rintro rfl
  exact hfree.not_mem hb

theorem Positions.Free.place {a b : Nat} (hfree : P.Free K a) (hapart : Apart lib.size a b)
    (pos : Option Nat) : Positions.Free K (P.place b pos) a := by
  refine ⟨hfree.1, fun c hc => ?_, hfree.2.2⟩
  rcases List.mem_cons.mp hc with rfl | hc
  · exact hapart
  · exact hfree.2.1 c hc

/-- An operation that the program may make is made of calls that it may make. -/
theorem legal_code {op : Op C} (hallows : P.Allows K op) :
    Along Positions.exec (Positions.Legal K) P op.code := by
  cases op with
  | begin result via =>
      obtain ⟨hfree, hvia⟩ := hallows
      cases via with
      | none => exact ⟨hfree, trivial⟩
      | some i =>
          obtain ⟨hi, hapart⟩ := hvia i rfl
          exact ⟨hi, ⟨hfree.place hapart _, List.mem_cons_self⟩,
            List.mem_cons_of_mem _ List.mem_cons_self, trivial⟩
  | postIncrement result self via =>
      obtain ⟨⟨hfree, hvia⟩, hself, hsome⟩ := hallows
      cases via with
      | none =>
          have hne := (hfree.ne_of_mem hself).symm
          refine ⟨⟨hfree, hself⟩, ⟨List.mem_cons_of_mem _ hself, ?_⟩, trivial⟩
          rwa [Positions.exec, Objects.place_obj_of_ne _ _ hne]
      | some i =>
          obtain ⟨hi, hapart⟩ := hvia i rfl
          have hne := (hi.ne_of_mem hself).symm
          refine ⟨⟨hi, hself⟩, ⟨List.mem_cons_of_mem _ hself, ?_⟩,
            ⟨hfree.place hapart (P.obj self), List.mem_cons_self⟩,
            List.mem_cons_of_mem _ List.mem_cons_self, trivial⟩
          rwa [Positions.exec, Objects.place_obj_of_ne _ _ hne]
  | pastEnd result it => exact ⟨hallows, trivial⟩
  | copy result other => exact ⟨hallows, trivial⟩
  | assign self other => exact ⟨hallows, trivial⟩
  | increment self => exact ⟨hallows, trivial⟩
  | destroy self => exact ⟨hallows, trivial⟩

/-- The calls that an operation is made of do to the positions what it is for. -/
theorem run_code {op : Op C} (hallows : P.Allows K op) :
    Related (fun _ p q => p = q) (run Positions.exec P op.code) (P.apply op) := by
  cases op with
  | begin result via =>
      obtain ⟨-, hvia⟩ := hallows
      cases via with
      | none => exact Related.same _
      | some i =>
          obtain ⟨hi, hapart⟩ := hvia i rfl
          have htemporary := related_of_temporary P (ne_of_apart lib.size_pos hapart) hi.not_mem
            (some 0) (some 0)
          simpa [Op.code, Positions.exec, Positions.apply] using htemporary
  | postIncrement result self via =>
      obtain ⟨⟨hfree, hvia⟩, hself, -⟩ := hallows
      cases via with
      | none =>
          have hne := hfree.ne_of_mem hself
          simp only [Op.code, run_cons, run_nil, Positions.exec, Positions.apply,
            Objects.place_obj_of_ne _ _ hne.symm, Objects.place_put_comm _ hne]
          exact Related.same _
      | some i =>
          obtain ⟨hi, hapart⟩ := hvia i rfl
          have hne := hi.ne_of_mem hself
          have hi' : i ∉ (P.put self ((P.obj self).map (· + 1))).live := hi.not_mem
          simp only [Op.code, run_cons, run_nil, Positions.exec, Positions.apply,
            Objects.place_obj_of_ne _ _ hne.symm, Objects.place_put_comm _ hne,
            Objects.place_obj_self]
          exact related_of_temporary _ (ne_of_apart lib.size_pos hapart) hi' _ _
  | _ => exact Related.same _

theorem simulates_apply (copyConstruct : CopyConstructor ι C) {s : Store ι C} {op : Op C}
    (hsim : Simulates K s P) (hallows : P.Allows K op)
    (hcopy : Along Positions.exec (CopiesPosition copyConstruct K) P op.code) :
    Simulates K (s.apply copyConstruct K op) (P.apply op) :=
  (simulates_run copyConstruct hsim (legal_code hallows) hcopy).of_same (run_code hallows)

end Code

end CloudabiCpp.Argdata.IteratorStore
