import Mathlib.Data.List.Basic
import Mathlib.Logic.Function.Basic

/-!
Live objects at addresses. A dead address keeps its last contents, as memory
does, but only the live ones are related to anything.
-/

namespace CloudabiCpp.Lib.LiveObjects

structure Objects (α : Type*) where
  live : List Nat
  obj : Nat → α

variable {α β : Type*}

namespace Objects

def place (o : Objects α) (a : Nat) (x : α) : Objects α where
  live := a :: o.live
  obj := Function.update o.obj a x

def put (o : Objects α) (a : Nat) (x : α) : Objects α where
  live := o.live
  obj := Function.update o.obj a x

def remove (o : Objects α) (a : Nat) : Objects α where
  live := o.live.erase a
  obj := o.obj

@[simp] theorem place_live (o : Objects α) (a : Nat) (x : α) :
    (o.place a x).live = a :: o.live := rfl

@[simp] theorem put_live (o : Objects α) (a : Nat) (x : α) : (o.put a x).live = o.live := rfl

@[simp] theorem remove_live (o : Objects α) (a : Nat) :
    (o.remove a).live = o.live.erase a := rfl

@[simp] theorem remove_obj (o : Objects α) (a b : Nat) : (o.remove a).obj b = o.obj b := rfl

@[simp] theorem place_obj_self (o : Objects α) (a : Nat) (x : α) :
    (o.place a x).obj a = x := by
  simp [place]

@[simp] theorem put_obj_self (o : Objects α) (a : Nat) (x : α) : (o.put a x).obj a = x := by
  simp [put]

theorem place_obj_of_ne (o : Objects α) {a b : Nat} (x : α) (hne : b ≠ a) :
    (o.place a x).obj b = o.obj b := by
  simp [place, hne]

theorem put_obj_of_ne (o : Objects α) {a b : Nat} (x : α) (hne : b ≠ a) :
    (o.put a x).obj b = o.obj b := by
  simp [put, hne]

theorem place_put_comm (o : Objects α) {a b : Nat} (hne : a ≠ b) (x y : α) :
    (o.place a x).put b y = (o.put b y).place a x := by
  unfold place put
  rw [Function.update_comm hne]

end Objects

structure Related (rel : Nat → α → β → Prop) (c : Objects α) (s : Objects β) : Prop where
  live : c.live = s.live
  obj : ∀ a ∈ s.live, rel a (c.obj a) (s.obj a)

namespace Related

variable {rel : Nat → α → β → Prop} {c : Objects α} {s : Objects β}

theorem update {a : Nat} {x : α} {y : β} (hrel : ∀ b ∈ s.live, rel b (c.obj b) (s.obj b))
    (hnew : rel a x y) {b : Nat} (hb : b = a ∨ b ∈ s.live) :
    rel b (Function.update c.obj a x b) (Function.update s.obj a y b) := by
  by_cases hba : b = a
  · subst hba
    simpa using hnew
  · simpa [hba] using hrel b (hb.resolve_left hba)

theorem place {a : Nat} {x : α} {y : β} (h : Related rel c s) (hnew : rel a x y) :
    Related rel (c.place a x) (s.place a y) where
  live := by simp [h.live]
  obj := fun _ hb => update h.obj hnew (List.mem_cons.mp hb)

theorem put {a : Nat} {x : α} {y : β} (h : Related rel c s) (hnew : rel a x y) :
    Related rel (c.put a x) (s.put a y) where
  live := h.live
  obj := fun _ hb => update h.obj hnew (Or.inr hb)

theorem remove (h : Related rel c s) (a : Nat) :
    Related rel (c.remove a) (s.remove a) where
  live := by simp [h.live]
  obj := fun b hb => h.obj b (List.mem_of_mem_erase hb)

theorem trans_eq {t : Objects β} (h : Related rel c s)
    (hsame : Related (fun _ x y => x = y) s t) : Related rel c t where
  live := h.live.trans hsame.live
  obj := by
    intro a ha
    rw [← hsame.obj a ha]
    exact h.obj a (hsame.live ▸ ha)

theorem same (o : Objects α) : Related (fun _ x y => x = y) o o := ⟨rfl, fun _ _ => rfl⟩

end Related

/-- An object that is dead again leaves nothing behind that matters. -/
theorem related_of_temporary (o : Objects α) {a i : Nat} (hne : a ≠ i) (hi : i ∉ o.live)
    (x y : α) :
    Related (fun _ x y => x = y) (((o.place i x).place a y).remove i) (o.place a y) where
  live := by simp [hne]
  obj := by
    intro b hb
    have hbi : b ≠ i := by
      rintro rfl
      rcases List.mem_cons.mp hb with rfl | hb
      · exact hne rfl
      · exact hi hb
    rcases eq_or_ne b a with rfl | hba
    · simp
    · simp [Objects.place_obj_of_ne _ _ hba, Objects.place_obj_of_ne _ _ hbi]

end CloudabiCpp.Lib.LiveObjects
