import UnifiedCache.Lib.Bytes

/-! Records laid out at fixed offsets: codecs for single fields, checked reads that
fault behind the end of the bytes, and writes and reads of consecutive fields. -/
namespace UnifiedCache.Layout
open Bytes

theorem ofLeBytes_lt (bytes : List UInt8) : ofLeBytes bytes < 256 ^ bytes.length := by
  induction bytes with
  | nil => simp [ofLeBytes]
  | cons b =>
    have hb : b.toNat < 256 := b.toNat_lt
    rw [ofLeBytes, List.length_cons, Nat.pow_succ]
    omega

@[simp] theorem leBytes_ofLeBytes (bytes : List UInt8) :
    leBytes bytes.length (ofLeBytes bytes) = bytes := by
  induction bytes with
  | nil => rfl
  | cons byte rest ih =>
    have hb : byte.toNat < 256 := byte.toNat_lt
    have hl : UInt8.ofNat (byte.toNat + 256 * ofLeBytes rest) = byte := by
      apply UInt8.toNat_inj.1
      rw [UInt8.toNat_ofNat']
      omega
    have hh : (byte.toNat + 256 * ofLeBytes rest) / 256 = ofLeBytes rest := by omega
    rw [List.length_cons, ofLeBytes, leBytes, hl, hh, ih]

/-- A field of a fixed positive width; every string of that width is a value. -/
structure FieldCodec (α : Type) where
  width : Nat
  encode : α → List UInt8
  decode : List UInt8 → α
  width_pos : 0 < width
  length_encode : ∀ value, (encode value).length = width
  decode_encode : ∀ value, decode (encode value) = value
  encode_decode : ∀ bytes, bytes.length = width → encode (decode bytes) = bytes

namespace FieldCodec
variable {α β : Type}

attribute [simp] length_encode decode_encode

/-- A little-endian unsigned integer of `width` bytes. -/
def unsigned (width : Nat) (toNat : α → Nat) (ofNat : Nat → α) (width_pos : 0 < width)
    (toNat_lt : ∀ value, toNat value < 256 ^ width)
    (ofNat_toNat : ∀ value, ofNat (toNat value) = value)
    (toNat_ofNat : ∀ n < 256 ^ width, toNat (ofNat n) = n) : FieldCodec α where
  width := width
  encode value := leBytes width (toNat value)
  decode bytes := ofNat (ofLeBytes bytes)
  width_pos := width_pos
  length_encode _ := length_leBytes _ _
  decode_encode value := by rw [ofLeBytes_leBytes, Nat.mod_eq_of_lt (toNat_lt value), ofNat_toNat]
  encode_decode bytes h := by
    have hlt : ofLeBytes bytes < 256 ^ width := h ▸ ofLeBytes_lt bytes
    rw [toNat_ofNat _ hlt, ← h, leBytes_ofLeBytes]

def uint8 : FieldCodec UInt8 where
  width := 1
  encode byte := [byte]
  decode bytes := bytes.headD 0
  width_pos := by decide
  length_encode _ := rfl
  decode_encode _ := rfl
  encode_decode bytes h := by
    obtain ⟨byte, rfl⟩ := List.length_eq_one_iff.mp h
    rfl

def uint16 : FieldCodec UInt16 :=
  unsigned 2 UInt16.toNat UInt16.ofNat (by decide) UInt16.toNat_lt (fun _ => UInt16.ofNat_toNat)
    (fun _ h => UInt16.toNat_ofNat_of_lt' h)

def uint32 : FieldCodec UInt32 :=
  unsigned 4 UInt32.toNat UInt32.ofNat (by decide) UInt32.toNat_lt (fun _ => UInt32.ofNat_toNat)
    (fun _ h => UInt32.toNat_ofNat_of_lt' h)

def uint64 : FieldCodec UInt64 :=
  unsigned 8 UInt64.toNat UInt64.ofNat (by decide) UInt64.toNat_lt (fun _ => UInt64.ofNat_toNat)
    (fun _ h => UInt64.toNat_ofNat_of_lt' h)

/-- A byte array of a fixed positive size; a string of any other width reads as zeros. -/
def array (size : Nat) (size_pos : 0 < size) : FieldCodec (Vector UInt8 size) where
  width := size
  encode value := value.toList
  decode bytes := if h : bytes.toArray.size = size then ⟨bytes.toArray, h⟩ else Vector.replicate size 0
  width_pos := size_pos
  length_encode value := by simp
  decode_encode value := by simp [Vector.toList]
  encode_decode bytes h := by simp [h, Vector.toList]

/-- The bytes of another codec in network order. -/
def network (codec : FieldCodec α) : FieldCodec α where
  width := codec.width
  encode value := (codec.encode value).reverse
  decode bytes := codec.decode bytes.reverse
  width_pos := codec.width_pos
  length_encode value := by simp
  decode_encode value := by simp
  encode_decode bytes h := by simp [codec.encode_decode, h]

def pair (first : FieldCodec α) (second : FieldCodec β) : FieldCodec (α × β) where
  width := first.width + second.width
  encode value := first.encode value.1 ++ second.encode value.2
  decode bytes := (first.decode (bytes.take first.width), second.decode (bytes.drop first.width))
  width_pos := Nat.add_pos_left first.width_pos _
  length_encode value := by simp
  decode_encode value := by
    rw [List.take_left' (first.length_encode _), List.drop_left' (first.length_encode _),
      first.decode_encode, second.decode_encode]
  encode_decode bytes h := by
    rw [first.encode_decode _ (by simp [h]), second.encode_decode _ (by simp [h]), List.take_append_drop]

def convert (codec : FieldCodec α) (f : α → β) (g : β → α) (hf : ∀ b, f (g b) = b)
    (hg : ∀ a, g (f a) = a) : FieldCodec β where
  width := codec.width
  encode value := codec.encode (g value)
  decode bytes := f (codec.decode bytes)
  width_pos := codec.width_pos
  length_encode value := codec.length_encode _
  decode_encode value := by rw [codec.decode_encode, hf]
  encode_decode bytes h := by rw [hg, codec.encode_decode _ h]

end FieldCodec

/-- Why a read of a record ends: it was refused, or it left the bytes it was given. -/
inductive Fault (ε : Type) where
  | refused (reason : ε)
  | readPastEnd
  deriving DecidableEq, Repr

variable {α β ε : Type}

def loadField (codec : FieldCodec α) (bytes : List UInt8) (offset : Nat) : Except (Fault ε) α :=
  if offset + codec.width ≤ bytes.length then .ok (codec.decode (readAt bytes offset codec.width))
  else .error .readPastEnd

def refuse (bad : Prop) [Decidable bad] (reason : ε) : Except (Fault ε) Unit :=
  if bad then .error (.refused reason) else .ok ()

/-- Consecutive records of `size` bytes; `read` gets the offset and the index of each. -/
def readEach (read : Nat → Nat → Except (Fault ε) α) (size : Nat) :
    Nat → Nat → Nat → Except (Fault ε) (List α)
  | _, _, 0 => .ok []
  | base, index, count + 1 => do
    let value ← read base index
    let rest ← readEach read size (base + size) (index + 1) count
    return value :: rest

@[simp] theorem bind_eq_ok {x : Except ε α} {f : α → Except ε β} {b : β} :
    (x >>= f) = .ok b ↔ ∃ a, x = .ok a ∧ f a = .ok b := by
  cases x with
  | error | ok => simp [bind, Except.bind]

@[simp] theorem pure_eq_ok {a b : α} : (pure a : Except ε α) = .ok b ↔ a = b := by
  simp [pure, Except.pure]

theorem exists_of_mem_mapM {f : α → Except ε β} {inputs : List α} {outputs : List β} {b : β}
    (h : inputs.mapM f = .ok outputs) (hm : b ∈ outputs) : ∃ a ∈ inputs, f a = .ok b := by
  induction inputs generalizing outputs with
  | nil =>
    cases h
    cases hm
  | cons a inputs ih =>
    simp only [List.mapM_cons, bind_eq_ok] at h
    obtain ⟨first, hf, rest, hr, h⟩ := h
    cases h
    rcases List.mem_cons.1 hm with rfl | hm
    · exact ⟨a, List.mem_cons_self, hf⟩
    · obtain ⟨o, ho, hb⟩ := ih hr hm
      exact ⟨o, List.mem_cons_of_mem _ ho, hb⟩

@[simp] theorem refuse_eq_ok {bad : Prop} [Decidable bad] {r : ε} {u : Unit} :
    refuse bad r = .ok u ↔ ¬ bad := by
  unfold refuse
  split <;> simp [*]

@[simp] theorem length_readAt (bytes : List UInt8) (offset count : Nat) :
    (readAt bytes offset count).length = min count (bytes.length - offset) := by
  simp [readAt]

variable {codec : FieldCodec α} {bytes : List UInt8} {offset size base idx count : Nat}

@[simp] theorem loadField_eq_ok {value : α} : (loadField codec bytes offset : Except (Fault ε) α) =
    .ok value ↔ readAt bytes offset codec.width = codec.encode value := by
  have hp := codec.width_pos
  have hl := length_readAt bytes offset codec.width
  unfold loadField
  split
  · constructor
    · intro h
      cases h
      rw [codec.encode_decode]
      omega
    · intro h
      rw [h, codec.decode_encode]
  constructor
  · intro h
    cases h
  · intro h
    rw [h, codec.length_encode] at hl
    omega

theorem readAt_add (bytes : List UInt8) (offset a b : Nat) :
    readAt bytes offset (a + b) = readAt bytes offset a ++ readAt bytes (offset + a) b := by
  rw [readAt, readAt, readAt, List.take_add, List.drop_drop]

theorem readAt_eq_append {front back : List UInt8} {width size : Nat} (hx : front.length = width) :
    readAt bytes offset
    (width + size) = front ++ back ↔ readAt bytes offset width = front ∧ readAt bytes
    (offset + width) size = back := by
  rw [readAt_add]
  constructor
  · intro h
    apply List.append_inj h
    have hl := congrArg List.length h
    simp only [List.length_append, length_readAt] at hl ⊢
    omega
  · rintro ⟨rfl, rfl⟩
    rfl

@[simp] theorem readAt_all (bytes : List UInt8) : readAt bytes 0 bytes.length = bytes := by
  simp [readAt]

variable {read : Nat → Nat → Except (Fault ε) α}

theorem readEach_eq_ok {encode : α → List UInt8} {good : α → Prop}
    (hl : ∀ va, (encode va).length = size)
    (he : ∀ base idx va, read base idx = .ok va ↔ readAt bytes base size = encode va ∧ good va)
    {v : List α} : readEach read size base idx count = .ok v ↔ v.length = count ∧
    (∀ va ∈ v, good va) ∧ readAt bytes base (count * size) = v.flatMap encode := by
  induction count generalizing base idx v with
  | zero =>
    cases v with
    | nil => simp [readEach, readAt]
    | cons => simp [readEach]
  | succ count ih =>
    simp only [readEach, bind_eq_ok, pure_eq_ok, he, ih]
    cases v with
    | nil => simp
    | cons va rest =>
      have hs : readAt bytes base ((count + 1) * size) = (va :: rest).flatMap encode ↔
          readAt bytes base size = encode va ∧
            readAt bytes (base + size) (count * size) = rest.flatMap encode := by
        rw [Nat.succ_mul, Nat.add_comm, List.flatMap_cons, readAt_eq_append (hl va)]
      rw [hs]
      constructor
      · rintro ⟨first, ⟨hf, hg⟩, others, ⟨_, ho, hr⟩, hq⟩
        cases hq
        simp only [List.length_cons, List.mem_cons, forall_eq_or_imp]
        exact ⟨by omega, ⟨hg, ho⟩, hf, hr⟩
      · rintro ⟨hc, hg, hf, hr⟩
        simp only [List.length_cons, List.mem_cons, forall_eq_or_imp] at hc hg
        exact ⟨va, ⟨hf, hg.1⟩, rest, ⟨by omega, hg.2, hr⟩, rfl⟩

def InBounds (x : Except (Fault ε) α) : Prop := x ≠ .error .readPastEnd

theorem InBounds.ok (a : α) : InBounds (.ok a : Except (Fault ε) α) := by
  simp [InBounds]

theorem InBounds.refuse (bad : Prop) [Decidable bad] (r : ε) : InBounds (refuse bad r) := by
  unfold Layout.refuse
  split <;> simp [InBounds]

theorem InBounds.loadField (h : offset + codec.width ≤ bytes.length) :
    InBounds (loadField codec bytes offset : Except (Fault ε) α) := by
  simp [InBounds, Layout.loadField, h]

theorem InBounds.bind {x : Except (Fault ε) α} {f : α → Except (Fault ε) β} (hx : InBounds x)
    (hf : ∀ a, x = .ok a → InBounds (f a)) : InBounds (x >>= f) := by
  cases x with
  | error e => exact fun h => hx (by cases h; rfl)
  | ok a => exact hf a rfl

theorem InBounds.readEach (hr : ∀ base idx, base + size ≤ bytes.length → InBounds (read base idx))
    (h : base + count * size ≤ bytes.length) : InBounds (readEach read size base idx count) := by
  induction count generalizing base idx with
  | zero => exact .ok _
  | succ _ ih =>
    rw [Nat.succ_mul] at h
    apply InBounds.bind (hr base idx (by omega))
    intro v _
    apply InBounds.bind (ih (by omega))
    intro r _
    exact .ok _

theorem writeAt_behind {w r : List UInt8} (h : w.length = offset) :
    writeAt (w ++ r) offset bytes = (w ++ bytes) ++ r.drop bytes.length := by
  subst h
  simp [writeAt]

end UnifiedCache.Layout
