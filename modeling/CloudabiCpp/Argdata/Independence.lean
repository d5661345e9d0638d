import CloudabiCpp.Argdata.IteratorStore

/-!
The multi-pass guarantee of the two iterator classes: whatever is done to other
iterators, each one keeps denoting its own position. It holds of `map_iterator`
for every program. `seq_iterator` has no copy constructor of its own, and its
programs keep the guarantee exactly as long as they never copy construct an
iterator whose entry is embedded in its cursor.
-/

namespace CloudabiCpp.Argdata.Independence

open CloudabiCpp.Lib.Blocks
open CloudabiCpp.Lib.LiveObjects
open CloudabiCpp.Lib.Runs
open CloudabiCpp.Argdata.Cursor
open CloudabiCpp.Argdata.Iterator
open CloudabiCpp.Argdata.IteratorStore

variable {ι C V : Type}

section AnyIterator

variable {lib : Library ι C V}

/-- A cached pointer of the object at `a` is null, to an entry outside all cursors,
or inside that object's own cursor. -/
def OwnPointer (K : Container lib) (live : List Nat) (a p : Nat) : Prop :=
  p = 0 ∨ (K.HasOutside p ∧ ∀ b ∈ live, ¬ Inside lib.size b p) ∨ Inside lib.size a p

/-- Every live iterator denotes its own logical position. -/
structure Independent (K : Container lib) (s : Store ι C) (P : Positions) : Prop where
  live : s.live = P.live
  own : ∀ a ∈ s.live, ∀ i, OwnPointer K s.live a ((s.obj a).value i)
  reads : ∀ a ∈ s.live, ∀ k v, P.obj a = some k → K.contents[k]? = some v →
    ∀ i, s.read lib ((s.obj a).value i) = v i
  pastEnd : ∀ a ∈ s.live, (∀ k, P.obj a = some k → K.entries.length ≤ k) →
    ∀ i, (s.obj a).value i = 0

/-- A program that creates objects on free storage, uses them while they live,
and advances only iterators that came from `begin()`. -/
def LegalProgram (K : Container lib) (ops : List (Op C)) : Prop :=
  Along Positions.apply (Positions.Allows K) noPositions ops

instance [Fintype ι] (K : Container lib) (ops : List (Op C)) :
    Decidable (LegalProgram K ops) :=
  inferInstanceAs (Decidable (Along _ _ _ _))

def objectsAfter (copyConstruct : CopyConstructor ι C) (K : Container lib)
    (bytes : Nat → CachedIterator ι C) (ops : List (Op C)) (n : Nat) : Store ι C :=
  run (Store.apply copyConstruct K) (noObjects bytes) (ops.take n)

def positionsAfter (ops : List (Op C)) (n : Nat) : Positions :=
  run Positions.apply noPositions (ops.take n)

/-- After every operation of the program each iterator denotes its own position,
and the result of an `it++` reads what `it` read before. -/
structure StaysIndependent (copyConstruct : CopyConstructor ι C) (K : Container lib)
    (bytes : Nat → CachedIterator ι C) (ops : List (Op C)) : Prop where
  independent : ∀ n,
    Independent K (objectsAfter copyConstruct K bytes ops n) (positionsAfter ops n)
  postIncrement : ∀ n result self via, ops[n]? = some (.postIncrement result self via) →
    ∀ k, (positionsAfter ops n).obj self = some k → k < K.entries.length →
      let before := objectsAfter copyConstruct K bytes ops n
      let after := objectsAfter copyConstruct K bytes ops (n + 1)
      ∀ i, after.read lib ((after.obj result).value i) =
        before.read lib ((before.obj self).value i)

theorem read_inside {s : Store ι C} {a p : Nat}
    (hapart : s.live.Pairwise (Apart lib.size)) (ha : a ∈ s.live)
    (hinside : Inside lib.size a p) :
    s.read lib p = lib.inner (s.obj a).it (p - a) := by
  simp [Store.read, owner_eq_some hapart ha hinside]

theorem read_outside {s : Store ι C} {p : Nat}
    (houtside : ∀ a ∈ s.live, ¬ Inside lib.size a p) : s.read lib p = lib.outer p := by
  simp [Store.read, owner_eq_none houtside]

theorem inside_of_valid {off a : Nat} (hvalid : (Ref.inside off).Valid lib.size) :
    Inside lib.size a (a + off) :=
  inside_add hvalid

theorem read_at {K : Container lib} {s : Store ι C}
    (hapart : s.live.Pairwise (Apart lib.size)) (hclear : ∀ b ∈ s.live, K.ClearOf b)
    {a k : Nat} {e : ι → Ref} (ha : a ∈ s.live)
    (hat : CachedIterator.At K a k (s.obj a)) (hentry : K.entries[k]? = some e) (i : ι) :
    s.read lib ((s.obj a).value i) = lib.content (lib.drawn K.start (k + 1)) (e i) := by
  have hvalid := K.valid_of_entry hentry i
  rw [hat.value, Container.pointer_of_entry hentry]
  cases href : e i with
  | outside p =>
      have houtside : ∀ b ∈ s.live, ¬ Inside lib.size b p := by
        intro b hb
        have hother := hclear b hb e (List.mem_of_getElem? hentry) i
        rwa [href] at hother
      exact read_outside houtside
  | inside off =>
      rw [href] at hvalid
      simp only [Ref.pointer]
      rw [read_inside hapart ha (inside_of_valid hvalid), hat.it]
      simp [Library.content]

theorem ownPointer_at {K : Container lib} {s : Store ι C} {P : Positions}
    (hsim : Simulates K s P) {a k : Nat} (hat : CachedIterator.At K a k (s.obj a)) (i : ι) :
    OwnPointer K s.live a ((s.obj a).value i) := by
  rw [hat.value]
  cases hentry : K.entries[k]? with
  | none =>
      left
      exact Container.pointer_of_length_le (List.getElem?_eq_none_iff.mp hentry) i
  | some e =>
      have hvalid := K.valid_of_entry hentry i
      rw [Container.pointer_of_entry hentry]
      right
      cases href : e i with
      | outside p =>
          have houtside : K.HasOutside p := ⟨e, List.mem_of_getElem? hentry, i, href⟩
          left
          refine ⟨houtside, fun b hb => houtside.not_inside ?_⟩
          rw [hsim.related.live] at hb
          exact hsim.placed.clear b hb
      | inside off =>
          right
          rw [href] at hvalid
          exact inside_of_valid hvalid

theorem independent_of_simulates {K : Container lib} {s : Store ι C} {P : Positions}
    (hsim : Simulates K s P) : Independent K s P := by
  have hdenotes : ∀ a ∈ s.live, Denotes K a (s.obj a) (P.obj a) := by
    intro a ha
    rw [hsim.related.live] at ha
    exact hsim.related.obj a ha
  refine ⟨hsim.related.live, ?_, ?_, ?_⟩
  · intro a ha i
    have hobj := hdenotes a ha
    cases hpos : P.obj a with
    | none =>
        rw [hpos] at hobj
        exact Or.inl (hobj i)
    | some k =>
        rw [hpos] at hobj
        exact ownPointer_at hsim hobj i
  · intro a ha k v hpos hcontent i
    have hobj := hdenotes a ha
    rw [hpos] at hobj
    rw [Container.contents_getElem?, Option.map_eq_some_iff] at hcontent
    obtain ⟨e, hentry, rfl⟩ := hcontent
    obtain ⟨-, hapart, hclear⟩ := hsim.placed
    rw [← hsim.related.live] at hapart hclear
    exact read_at hapart hclear ha hobj hentry i
  · intro a ha hpast i
    have hobj := hdenotes a ha
    cases hpos : P.obj a with
    | none =>
        rw [hpos] at hobj
        exact hobj i
    | some k =>
        rw [hpos] at hobj
        rw [hobj.value]
        exact Container.pointer_of_length_le (hpast k hpos) i

/-- A legal program whose copies carry positions over keeps every iterator at its
own position, after every operation. -/
theorem simulates_after (copyConstruct : CopyConstructor ι C) {K : Container lib}
    (bytes : Nat → CachedIterator ι C) {ops : List (Op C)} (hlegal : LegalProgram K ops)
    (hcopy : Along Positions.apply (fun P op =>
      Along Positions.exec (CopiesPosition copyConstruct K) P op.code) noPositions ops) (n : Nat) :
    Simulates K (objectsAfter copyConstruct K bytes ops n) (positionsAfter ops n) := by
  refine run_simulates ?_ (simulates_noObjects K bytes) ((hlegal.take n).and (hcopy.take n))
  intro s P op hsim hop
  exact simulates_apply copyConstruct hsim hop.1 hop.2

/-- The old entry is read from the copy that was made of it, whatever has become of
the original. -/
theorem StaysIndependent.of_independent {copyConstruct : CopyConstructor ι C}
    {K : Container lib} {bytes : Nat → CachedIterator ι C} {ops : List (Op C)}
    (hlegal : LegalProgram K ops)
    (hindep : ∀ n,
      Independent K (objectsAfter copyConstruct K bytes ops n) (positionsAfter ops n)) :
    StaysIndependent copyConstruct K bytes ops where
  independent := hindep
  postIncrement := by
    intro n result self via hop k hpos hk before after i
    obtain ⟨-, hself, -⟩ := hlegal.getElem? hop
    have hnext : positionsAfter ops (n + 1) =
        (positionsAfter ops n).apply (.postIncrement result self via) :=
      run_take_succ _ _ hop
    have hresult : result ∈ (positionsAfter ops (n + 1)).live := by
      rw [hnext]
      exact List.mem_cons_self
    have hold : (positionsAfter ops (n + 1)).obj result = some k := by
      rw [hnext, ← hpos]
      exact Objects.place_obj_self _ _ _
    have hcontent := List.getElem?_eq_getElem (l := K.contents) (i := k)
      (by rwa [Container.contents, List.length_mapIdx])
    have hafter := (hindep (n + 1)).reads result ((hindep (n + 1)).live ▸ hresult) k _ hold hcontent
    have hbefore := (hindep n).reads self ((hindep n).live ▸ hself) k _ hpos hcontent
    rw [hafter, hbefore]

end AnyIterator

section MapIterator

variable {lib : Library Half C V}

theorem mapIterator_copiesPosition {K : Container lib} (hfirst : K.PastFirstByte)
    (P : Positions) (op : Prim C) :
    CopiesPosition (MapIterator.copyConstruct lib) K P op := by
  cases op with
  | copy a b => exact fun hclear x hdenotes => hdenotes.assign hfirst hclear a
  | assign a b => exact fun hclear x hdenotes => hdenotes.assign hfirst hclear a
  | _ => trivial

theorem mapIterator_independent (K : Container lib) (hfirst : K.PastFirstByte)
    (bytes : Nat → MapIterator C) (ops : List (Op C)) (hlegal : LegalProgram K ops) :
    StaysIndependent (MapIterator.copyConstruct lib) K bytes ops := by
  have hcopy : ∀ op ∈ ops, ∀ P, Along Positions.exec
      (CopiesPosition (MapIterator.copyConstruct lib) K) P op.code := by
    intro op _ P
    exact Along.of_mem (fun call _ Q => mapIterator_copiesPosition hfirst Q call) P
  have hsim := simulates_after _ bytes hlegal (Along.of_mem hcopy noPositions)
  exact .of_independent hlegal fun n => independent_of_simulates (hsim n)

abbrev mapLibrary : Library Half (List (Half → Ref)) Nat :=
  listLibrary Half 16 (by decide) (fun rest off => 10 * rest.length + off) (fun p => p)

def mixedMap : Container mapLibrary :=
  listContainer
    [fun h => if h = Half.first then .inside 8 else .outside 5000,
      fun h => if h = Half.first then .outside 6000 else .inside 4]
    (by decide)

def mixedProgram : List (Op (List (Half → Ref))) :=
  [.begin 100 (some 140), .pastEnd 200 [], .postIncrement 300 100 (some 400),
    .assign 300 300, .assign 200 100, .copy 500 300, .increment 100,
    .pastEnd 600 [], .assign 500 600, .destroy 100]

theorem mapIterator_independent_mixedMap :
    StaysIndependent (MapIterator.copyConstruct mapLibrary) mixedMap (fun _ => .default [])
      mixedProgram :=
  mapIterator_independent mixedMap (by decide) _ mixedProgram (by decide)

end MapIterator

section SeqIterator

variable {lib : Library Unit C V}

/-- An iterator at the position denotes no embedded entry. -/
def NotEmbedded (K : Container lib) (pos : Option Nat) : Prop :=
  ∀ k e, pos = some k → K.entries[k]? = some e → (e ()).isOutside = true

/-- The operation copy constructs no iterator on an embedded entry. -/
def CopiesNoEmbedded (K : Container lib) (P : Positions) : Op C → Prop
  | .begin _ (some _) => NotEmbedded K (some 0)
  | .copy _ other => NotEmbedded K (P.obj other)
  | .postIncrement _ self _ => NotEmbedded K (P.obj self)
  | _ => True

theorem seqIterator_denotes_copy {K : Container lib} {pos : Option Nat} {b : Nat}
    {x : SeqIterator C} (hpos : NotEmbedded K pos) (hdenotes : Denotes K b x pos) (a : Nat) :
    Denotes K a (SeqIterator.copyConstruct lib a b x) pos := by
  cases pos with
  | none => exact hdenotes
  | some k =>
      refine ⟨fun i => ?_, hdenotes.it⟩
      change x.value i = K.pointer a k i
      rw [hdenotes.value]
      cases hentry : K.entries[k]? with
      | none => simp [Container.pointer, hentry]
      | some e =>
          have houtside : (e i).isOutside = true := hpos k e rfl hentry
          rw [Container.pointer_of_entry hentry, Container.pointer_of_entry hentry]
          exact Ref.pointer_of_isOutside houtside b a

theorem seqIterator_copiesPosition {K : Container lib} (hfirst : K.PastFirstByte)
    {P : Positions} {op : Op C} (hallows : P.Allows K op) (hop : CopiesNoEmbedded K P op) :
    Along Positions.exec (CopiesPosition (SeqIterator.copyConstruct lib) K) P op.code := by
  cases op with
  | begin result via =>
      cases via with
      | none => exact ⟨trivial, trivial⟩
      | some i =>
          refine ⟨trivial, fun _ x hdenotes => ?_, trivial, trivial⟩
          simp only [Positions.exec, Objects.place_obj_self] at hdenotes ⊢
          exact seqIterator_denotes_copy hop hdenotes result
  | copy result other =>
      exact ⟨fun _ x hdenotes => seqIterator_denotes_copy hop hdenotes result, trivial⟩
  | assign self other =>
      exact ⟨fun hclear x hdenotes => hdenotes.assign hfirst hclear self, trivial⟩
  | postIncrement result self via =>
      obtain ⟨⟨-, hvia⟩, hself, -⟩ := hallows
      cases via with
      | none =>
          exact ⟨fun _ x hdenotes => seqIterator_denotes_copy hop hdenotes result, trivial, trivial⟩
      | some i =>
          have hne := (hvia i rfl).1.ne_of_mem hself
          refine ⟨fun _ x hdenotes => seqIterator_denotes_copy hop hdenotes i, trivial,
            fun _ x hdenotes => ?_, trivial, trivial⟩
          simp only [Positions.exec, Objects.put_obj_of_ne _ _ hne, Objects.place_obj_self]
            at hdenotes ⊢
          exact seqIterator_denotes_copy hop hdenotes result
  | _ => exact ⟨trivial, trivial⟩

/-- A pointer into a cursor that is not the iterator's own, be it still alive or not. -/
theorem not_ownPointer_of_other {K : Container lib} {live : List Nat} {a b p : Nat}
    (hb : b ≠ 0) (hclear : K.ClearOf b) (hapart : Apart lib.size a b)
    (hinside : Inside lib.size b p) : ¬ OwnPointer K live a p := by
  rintro (rfl | ⟨houtside, -⟩ | hown)
  · exact hb (Nat.le_zero.mp hinside.1)
  · exact houtside.not_inside hclear hinside
  · exact not_inside_of_apart hapart hown hinside

theorem pointer_inside {K : Container lib} {b k : Nat} {e : Unit → Ref} {x : SeqIterator C}
    (hat : CachedIterator.At K b k x) (hentry : K.entries[k]? = some e)
    (hembedded : ¬ (e ()).isOutside = true) : Inside lib.size b (x.value ()) := by
  have hvalid := K.valid_of_entry hentry ()
  rw [hat.value, Container.pointer_of_entry hentry]
  cases href : e () with
  | outside p =>
      rw [href] at hembedded
      exact absurd rfl hembedded
  | inside off =>
      rw [href] at hvalid
      exact inside_of_valid hvalid

theorem notEmbedded_of_ownPointer {K : Container lib} {live : List Nat} {a b : Nat}
    {pos : Option Nat} {x : SeqIterator C} (hdenotes : Denotes K b x pos) (hb : b ≠ 0)
    (hclear : K.ClearOf b) (hapart : Apart lib.size a b)
    (hown : OwnPointer K live a (x.value ())) : NotEmbedded K pos := by
  rintro k e rfl hentry
  by_contra hembedded
  exact not_ownPointer_of_other hb hclear hapart (pointer_inside hdenotes hentry hembedded) hown

theorem copiesNoEmbedded_of_independent {K : Container lib} {s : Store Unit C}
    {P : Positions} {op : Op C} (hsim : Simulates K s P) (hallows : P.Allows K op)
    (hindep : Independent K (s.apply (SeqIterator.copyConstruct lib) K op) (P.apply op)) :
    CopiesNoEmbedded K P op := by
  have hlive := hindep.live
  cases op with
  | begin result via =>
      cases via with
      | none => trivial
      | some i =>
          obtain ⟨hi, hapart⟩ := hallows.2 i rfl
          have hown := hindep.own result (by rw [hlive]; exact List.mem_cons_self) ()
          exact notEmbedded_of_ownPointer (CachedIterator.begin_at K i) hi.1 hi.2.2 hapart
            (by simpa [Store.apply, Op.code, Store.exec, SeqIterator.copyConstruct] using hown)
  | copy result other =>
      obtain ⟨hfree, hother⟩ := hallows
      have hown := hindep.own result (by rw [hlive]; exact List.mem_cons_self) ()
      exact notEmbedded_of_ownPointer (hsim.related.obj other hother)
        (hsim.placed.nonnull other hother) (hsim.placed.clear other hother)
        (hfree.2.1 other hother)
        (by simpa [Store.apply, Op.code, Store.exec, SeqIterator.copyConstruct] using hown)
  | postIncrement result self via =>
      obtain ⟨⟨hfree, hvia⟩, hself, -⟩ := hallows
      have hown := hindep.own result (by rw [hlive]; exact List.mem_cons_self) ()
      have hvalue : ((s.apply (SeqIterator.copyConstruct lib) K
          (.postIncrement result self via)).obj result).value () = (s.obj self).value () := by
        cases via with
        | none =>
            simp [Store.apply, Op.code, Store.exec, SeqIterator.copyConstruct,
              Objects.put_obj_of_ne _ _ (hfree.ne_of_mem hself)]
        | some i =>
            simp [Store.apply, Op.code, Store.exec, SeqIterator.copyConstruct,
              Objects.put_obj_of_ne _ _ ((hvia i rfl).1.ne_of_mem hself)]
      rw [hvalue] at hown
      exact notEmbedded_of_ownPointer (hsim.related.obj self hself)
        (hsim.placed.nonnull self hself) (hsim.placed.clear self hself)
        (hfree.2.1 self hself) hown
  | _ => trivial

/-- `seq_iterator` objects stay independent through a legal program exactly when
the program never copy constructs an iterator on an embedded entry. -/
theorem seqIterator_independent_iff (K : Container lib) (hfirst : K.PastFirstByte)
    (bytes : Nat → SeqIterator C) (ops : List (Op C)) (hlegal : LegalProgram K ops) :
    StaysIndependent (SeqIterator.copyConstruct lib) K bytes ops ↔
      Along Positions.apply (CopiesNoEmbedded K) noPositions ops := by
  constructor
  · rintro ⟨hindep, -⟩
    refine along_of_good ?_ ?_ (simulates_noObjects K bytes) hlegal hindep
    · intro s P op hsim hallows hop
      exact simulates_apply _ hsim hallows (seqIterator_copiesPosition hfirst hallows hop)
    · intro s P op hsim hallows hindep
      exact copiesNoEmbedded_of_independent hsim hallows hindep
  · intro hsafe
    have hcopy := (hlegal.and hsafe).mono fun P op hop =>
      seqIterator_copiesPosition hfirst hop.1 hop.2
    have hsim := simulates_after _ bytes hlegal hcopy
    exact .of_independent hlegal fun n => independent_of_simulates (hsim n)

abbrev seqLibrary : Library Unit (List (Unit → Ref)) Nat :=
  listLibrary Unit 16 (by decide) (fun rest off => 10 * rest.length + off) (fun p => p)

/-- An encoded sequence of two entries, both decoded into the same bytes of the
cursor. -/
def encodedSeq : Container seqLibrary :=
  listContainer [fun _ => .inside 8, fun _ => .inside 8] (by decide)

def postIncrementProgram : List (Op (List (Unit → Ref))) :=
  [.begin 100 none, .postIncrement 200 100 none]

theorem seqIterator_independent_iff_encodedSeq :
    StaysIndependent (SeqIterator.copyConstruct seqLibrary) encodedSeq (fun _ => .default [])
        postIncrementProgram ↔
      Along Positions.apply (CopiesNoEmbedded encodedSeq) noPositions postIncrementProgram :=
  seqIterator_independent_iff encodedSeq (by decide) _ postIncrementProgram (by decide)

/-- The result of `it++` at the first entry of an encoded sequence reads the
second entry. -/
theorem seqIterator_postIncrement_not_independent :
    let s := objectsAfter (SeqIterator.copyConstruct seqLibrary) encodedSeq
      (fun _ => .default []) postIncrementProgram 2
    LegalProgram encodedSeq postIncrementProgram ∧
      (positionsAfter postIncrementProgram 2).obj 200 = some 0 ∧
      encodedSeq.contents.map (fun entry => entry ()) = [18, 8] ∧
      s.read seqLibrary ((s.obj 200).value ()) = 8 ∧
      ¬ StaysIndependent (SeqIterator.copyConstruct seqLibrary) encodedSeq
        (fun _ => .default []) postIncrementProgram := by
  intro s
  have hread : s.read seqLibrary ((s.obj 200).value ()) = 8 := by decide
  refine ⟨by decide, by decide, by decide, hread, ?_⟩
  rintro ⟨hindep, -⟩
  have hfirst := (hindep 2).reads 200 (by decide) 0 _ (by decide) rfl ()
  rw [hread] at hfirst
  revert hfirst
  decide

end SeqIterator

end CloudabiCpp.Argdata.Independence
