import CloudabiCpp.Lib.Vectors

/-!
`encoded_size` and the three overloads of `encode`: the library measures, the
vectors are resized, the library writes through their first elements, and the
descriptor vector is cut back to the number written.
-/

namespace CloudabiCpp.Argdata.Encoding

open CloudabiCpp.Lib.Vectors

/-- What a call of `argdata_get_buffer` writes and returns. -/
structure Output where
  bytes : List UInt8
  fds : List Int
  count : Nat

/-- The library functions that `encode` calls. `argdata_get_buffer` writes as many
bytes as `argdata_get_buffer_length` reported, and returns the number of
descriptors, at most the one reported; unless the array is null it has written
them to it. -/
structure BufferApi (A : Type) where
  bufferLength : A → Nat
  fdsBound : A → Nat
  output : A → (fdsIsNull : Bool) → Output
  length_bytes : ∀ a fdsIsNull, (output a fdsIsNull).bytes.length = bufferLength a
  length_fds : ∀ a, (output a false).fds.length = (output a false).count
  fds_null : ∀ a, (output a true).fds = []
  count_le : ∀ a fdsIsNull, (output a fdsIsNull).count ≤ fdsBound a

variable {A : Type} (api : BufferApi A) (bytesAlloc fdsAlloc : Allocator) (a : A)

/-- `argdata_get_buffer(this, buffer.data(), nullptr)`. -/
def getBytes (buffer : Vec UInt8) : Option (Vec UInt8) :=
  buffer.storeAll 0 (api.output a true).bytes

/-- `argdata_get_buffer(this, buffer.data(), fds.data())` and the returned number. -/
def getBuffer (buffer : Vec UInt8) (fds : Vec Int) : Option (Vec UInt8 × Vec Int × Nat) := do
  let out := api.output a fds.isNull
  let buffer ← buffer.storeAll 0 out.bytes
  let fds ← fds.storeAll 0 out.fds
  return (buffer, fds, out.count)

/-- What `encoded_size` returns, and what it stores in `*n_fds` if that is not null. -/
def encodedSize : Nat × Nat := (api.bufferLength a, api.fdsBound a)

def encodeBuffer (buffer : Vec UInt8) : Option (Vec UInt8) :=
  getBytes api a (buffer.resize bytesAlloc 0 (encodedSize api a).1)

def encodeBufferFds (buffer : Vec UInt8) (fds : Vec Int) : Option (Vec UInt8 × Vec Int) := do
  let buffer := buffer.resize bytesAlloc 0 (encodedSize api a).1
  let fds := fds.resize fdsAlloc 0 (encodedSize api a).2
  let (buffer, fds, nFds) ← getBuffer api a buffer fds
  return (buffer, fds.resize fdsAlloc 0 nFds)

/-- The overload that returns the buffer; `fds` is what the pointer points to. -/
def encode (fds : Option (Vec Int)) : Option (Vec UInt8 × Option (Vec Int)) :=
  match fds with
  | some fds => do
      let (buffer, fds) ← encodeBufferFds api bytesAlloc fdsAlloc a .empty fds
      return (buffer, some fds)
  | none => do
      let buffer ← encodeBuffer api bytesAlloc a .empty
      return (buffer, none)

theorem length_fds_eq_count {fds : Vec Int} (hroom : fds.elements.length = api.fdsBound a) :
    (api.output a fds.isNull).fds.length = (api.output a fds.isNull).count := by
  cases hnull : fds.isNull with
  | false => exact api.length_fds a
  | true =>
      -- `data()` is null only if no descriptor was announced
      have hbound : api.fdsBound a = 0 := by
        rw [← hroom, Vec.elements_of_isNull hnull, List.length_nil]
      have hcount := api.count_le a true
      rw [api.fds_null, List.length_nil]
      omega

theorem storeAll_bytes (fdsIsNull : Bool) (buffer : Vec UInt8) :
    ∃ b, (buffer.resize bytesAlloc 0 (api.bufferLength a)).storeAll 0
        (api.output a fdsIsNull).bytes = some b ∧
      b.elements = (api.output a fdsIsNull).bytes := by
  rw [← api.length_bytes a fdsIsNull]
  exact Vec.storeAll_resize bytesAlloc 0 buffer _

/-- The output for the descriptor array that the second overload passes. -/
def outputFor (fds : Vec Int) : Output :=
  api.output a (fds.resize fdsAlloc 0 (api.fdsBound a)).isNull

def HoldsBytes (out : Output) (buffer : Vec UInt8) : Prop :=
  buffer.elements.length = api.bufferLength a ∧ buffer.elements = out.bytes

def HoldsFds (out : Output) (fds : Vec Int) : Prop :=
  fds.elements.length = out.count ∧ fds.elements = out.fds

theorem holdsBytes_of_eq {buffer : Vec UInt8} {fdsIsNull : Bool}
    (hbytes : buffer.elements = (api.output a fdsIsNull).bytes) :
    HoldsBytes api a (api.output a fdsIsNull) buffer :=
  ⟨hbytes ▸ api.length_bytes a fdsIsNull, hbytes⟩

theorem encodeBuffer_holds (buffer : Vec UInt8) :
    ∃ b, encodeBuffer api bytesAlloc a buffer = some b ∧
      HoldsBytes api a (api.output a true) b := by
  obtain ⟨b, hstore, hbytes⟩ := storeAll_bytes api bytesAlloc a true buffer
  exact ⟨b, hstore, holdsBytes_of_eq api a hbytes⟩

theorem encodeBufferFds_holds (buffer : Vec UInt8) (fds : Vec Int) :
    ∃ b f, encodeBufferFds api bytesAlloc fdsAlloc a buffer fds = some (b, f) ∧
      HoldsBytes api a (outputFor api fdsAlloc a fds) b ∧
        HoldsFds (outputFor api fdsAlloc a fds) f := by
  let announced := fds.resize fdsAlloc 0 (api.fdsBound a)
  let out := api.output a announced.isNull
  have hroom : announced.elements.length = api.fdsBound a := by
    rw [Vec.elements_resize, Vec.length_resized]
  have hcount : out.fds.length = out.count := length_fds_eq_count api a hroom
  have hfits : out.fds.length ≤ announced.elements.length := by
    rw [hcount, hroom]
    exact api.count_le a announced.isNull
  obtain ⟨b, hb, hbytes⟩ := storeAll_bytes api bytesAlloc a announced.isNull buffer
  obtain ⟨written, hwritten, -⟩ := Vec.storeAll_zero hfits
  have hcut : (written.resize fdsAlloc 0 out.count).elements = out.fds := by
    rw [← hcount]
    exact Vec.elements_cut hfits hwritten fdsAlloc 0
  have hget : getBuffer api a (buffer.resize bytesAlloc 0 (api.bufferLength a)) announced =
      some (b, written, out.count) := by
    simp only [getBuffer, Option.bind_eq_bind, hb, Option.bind_some]
    rw [hwritten]
    rfl
  refine ⟨b, written.resize fdsAlloc 0 out.count, ?_, holdsBytes_of_eq api a hbytes, ?_, hcut⟩
  · simp only [encodeBufferFds, encodedSize]
    rw [hget]
    rfl
  · rw [hcut, hcount]
    rfl

/-- Every overload stays in bounds, leaves the encoding and the written
descriptors and nothing else, and returns what it would store in place. -/
theorem encode_exact (buffer : Vec UInt8) (fds : Vec Int) :
    (∃ b new, encodeBuffer api bytesAlloc a buffer = some b ∧
        encode api bytesAlloc fdsAlloc a none = some (new, none) ∧
        HoldsBytes api a (api.output a true) b ∧ new.elements = b.elements) ∧
      ∃ b f new newFds, encodeBufferFds api bytesAlloc fdsAlloc a buffer fds = some (b, f) ∧
        encode api bytesAlloc fdsAlloc a (some fds) = some (new, some newFds) ∧
        HoldsBytes api a (outputFor api fdsAlloc a fds) b ∧
        HoldsFds (outputFor api fdsAlloc a fds) f ∧
        new.elements = b.elements ∧ newFds.elements = f.elements := by
  constructor
  · obtain ⟨b, hb, hbytes⟩ := encodeBuffer_holds api bytesAlloc a buffer
    obtain ⟨new, hnew, hnewBytes⟩ := encodeBuffer_holds api bytesAlloc a .empty
    refine ⟨b, new, hb, ?_, hbytes, hnewBytes.2.trans hbytes.2.symm⟩
    rw [encode, hnew]
    rfl
  · obtain ⟨b, f, hb, hbytes, hfds⟩ :=
      encodeBufferFds_holds api bytesAlloc fdsAlloc a buffer fds
    obtain ⟨new, newFds, hnew, hnewBytes, hnewFds⟩ :=
      encodeBufferFds_holds api bytesAlloc fdsAlloc a .empty fds
    refine ⟨b, f, new, newFds, hb, ?_, hbytes, hfds, hnewBytes.2.trans hbytes.2.symm,
      hnewFds.2.trans hfds.2.symm⟩
    rw [encode, hnew]
    rfl

/-- Two descriptors are announced and one is written. -/
def announcesTwo : BufferApi Unit where
  bufferLength := fun _ => 3
  fdsBound := fun _ => 2
  output := fun _ fdsIsNull =>
    { bytes := [7, 0, 1]
      fds := if fdsIsNull then [] else [4]
      count := if fdsIsNull then 0 else 1 }
  length_bytes := fun _ _ => rfl
  length_fds := fun _ => rfl
  fds_null := fun _ => rfl
  count_le := by
    rintro _ (_ | _)
    · decide
    · decide

def plainAlloc : Allocator where
  address := fun _ => 4096
  room := fun n => n
  le_room := Nat.le_refl
  address_ne_null := by simp

example :
    ((encodeBufferFds announcesTwo plainAlloc plainAlloc ()
        (Vec.empty.resize plainAlloc 9 5) (Vec.empty.resize plainAlloc 8 1)).map fun result =>
      (result.1.elements, result.2.elements)) = some ([7, 0, 1], [4]) := by decide

end CloudabiCpp.Argdata.Encoding
