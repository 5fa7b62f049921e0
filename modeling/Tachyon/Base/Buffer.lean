import Mathlib.Data.UInt
import Mathlib.Data.List.Basic

/-!
# Read-only buffers

The R1CS reader drives a `base::ReadOnlyBuffer`, which is not part of the sources.  It is
modelled from the spec ("little-endian binary layout") and from the way `r1cs.h` uses it: a
byte string with a read offset.  Reading `n` bytes fails, leaving the offset where it is, when
fewer than `n` remain; otherwise it returns them and moves past them.  A `uint32_t` or
`uint64_t` is read as 4 or 8 bytes, least significant first (`base::EndianAutoReset` puts every
reader of `r1cs.h` in little-endian mode).

A sequence of reads is a `Reader`, a state transformer over the buffer that may fail.  What a
reader does on well-formed input is stated by `Reads r enc x`: from any buffer whose unread
bytes begin with `enc`, `r` returns `x` and moves past exactly `enc`.  `Reads` composes along
`>>=` (`Reads.bind`), so a reader's round trip is assembled from those of its parts.

The converse, `Decodes r R`, says what the bytes were whenever `r` succeeds: it moved past some
`enc` that the unread bytes began with, related to its result by `R`.  It composes the same way.
-/

namespace Tachyon.Base

/-! ## Little-endian numbers -/

/-- The natural number whose bytes, least significant first, are the list. -/
def decodeLE : List UInt8 → ℕ
  | [] => 0
  | byte :: rest => byte.toNat + 256 * decodeLE rest

/-- `n` written in `width` bytes, least significant first; the higher bytes are dropped. -/
def encodeLE (n : ℕ) : ℕ → List UInt8
  | 0 => []
  | width + 1 => UInt8.ofNat n :: encodeLE (n / 256) width

@[simp] lemma length_encodeLE (n width : ℕ) : (encodeLE n width).length = width := by
  induction width generalizing n <;> simp [encodeLE, *]

lemma decodeLE_encodeLE (n width : ℕ) : decodeLE (encodeLE n width) = n % 256 ^ width := by
  induction width generalizing n with
  | zero => simp [encodeLE, decodeLE, Nat.mod_one]
  | succ width ih =>
    have hbyte : (UInt8.ofNat n).toNat = n % 256 := by
      simp [UInt8.toNat, UInt8.ofNat, BitVec.toNat_ofNat]
    rw [encodeLE, decodeLE, ih, hbyte, pow_succ', Nat.mod_mul]

/-- A `uint32_t` as it is stored. -/
def encodeU32 (v : UInt32) : List UInt8 := encodeLE v.toNat 4

/-- A `uint64_t` as it is stored. -/
def encodeU64 (v : UInt64) : List UInt8 := encodeLE v.toNat 8

@[simp] lemma length_encodeU32 (v : UInt32) : (encodeU32 v).length = 4 := length_encodeLE _ _

@[simp] lemma length_encodeU64 (v : UInt64) : (encodeU64 v).length = 8 := length_encodeLE _ _

lemma ofNat_decodeLE_encodeU32 (v : UInt32) : UInt32.ofNat (decodeLE (encodeU32 v)) = v := by
  have hlt : v.toNat < 256 ^ 4 := v.toNat_lt_size
  rw [encodeU32, decodeLE_encodeLE, Nat.mod_eq_of_lt hlt]
  exact UInt32.toNat.inj (UInt32.toNat_ofNat_of_lt hlt)

lemma ofNat_decodeLE_encodeU64 (v : UInt64) : UInt64.ofNat (decodeLE (encodeU64 v)) = v := by
  have hlt : v.toNat < 256 ^ 8 := v.toNat_lt_size
  rw [encodeU64, decodeLE_encodeLE, Nat.mod_eq_of_lt hlt]
  exact UInt64.toNat.inj (UInt64.toNat_ofNat_of_lt hlt)

/-! ## The buffer -/

/-- Modelled from the spec: `base::ReadOnlyBuffer`, its bytes and its read offset. -/
structure ReadOnlyBuffer where
  bytes : List UInt8
  offset : ℕ

namespace ReadOnlyBuffer

/-- `set_buffer_offset(offset)`. -/
def setOffset (b : ReadOnlyBuffer) (offset : ℕ) : ReadOnlyBuffer := ⟨b.bytes, offset⟩

@[simp] lemma bytes_setOffset (b : ReadOnlyBuffer) (o : ℕ) : (b.setOffset o).bytes = b.bytes := rfl

@[simp] lemma offset_setOffset (b : ReadOnlyBuffer) (o : ℕ) : (b.setOffset o).offset = o := rfl

@[simp] lemma setOffset_setOffset (b : ReadOnlyBuffer) (o o' : ℕ) :
    (b.setOffset o).setOffset o' = b.setOffset o' := rfl

@[simp] lemma setOffset_offset (b : ReadOnlyBuffer) : b.setOffset b.offset = b := rfl

/-- From its read offset on, the buffer holds `s`. -/
def Remaining (b : ReadOnlyBuffer) (s : List UInt8) : Prop :=
  b.offset ≤ b.bytes.length ∧ b.bytes.drop b.offset = s

variable {b : ReadOnlyBuffer} {s rest : List UInt8}

lemma Remaining.le_length (h : b.Remaining (s ++ rest)) : b.offset + s.length ≤ b.bytes.length := by
  have hlen := congrArg List.length h.2
  simp only [List.length_drop, List.length_append] at hlen
  have := h.1
  omega

/-- Moving past `s` leaves the rest unread. -/
lemma Remaining.skip (h : b.Remaining (s ++ rest)) :
    (b.setOffset (b.offset + s.length)).Remaining rest :=
  ⟨h.le_length, by rw [bytes_setOffset, offset_setOffset, ← List.drop_drop, h.2, List.drop_left]⟩

end ReadOnlyBuffer

open ReadOnlyBuffer

/-- A sequence of reads from a `base::ReadOnlyBuffer`, which may fail. -/
abbrev Reader := StateT ReadOnlyBuffer Option

/-- `Read(ptr, size)`: the next `size` bytes, or failure with nothing moved. -/
def readBytes (size : ℕ) : Reader (List UInt8) := fun b =>
  if b.offset + size ≤ b.bytes.length then
    some ((b.bytes.drop b.offset).take size, b.setOffset (b.offset + size))
  else none

/-- `Read(uint32_t*)`. -/
def readU32 : Reader UInt32 := (fun bytes => UInt32.ofNat (decodeLE bytes)) <$> readBytes 4

/-- `Read(uint64_t*)`. -/
def readU64 : Reader UInt64 := (fun bytes => UInt64.ofNat (decodeLE bytes)) <$> readBytes 8

/-! ## Reading what was written -/

/-- `r` reads `x` from `enc`: from every buffer whose unread bytes begin with `enc`, it returns
`x` and moves past exactly `enc`. -/
def Reads {α : Type} (r : Reader α) (enc : List UInt8) (x : α) : Prop :=
  ∀ b rest, b.Remaining (enc ++ rest) → r.run b = some (x, b.setOffset (b.offset + enc.length))

section Reads

variable {α β : Type}

lemma reads_pure (x : α) : Reads (pure x) [] x := fun b _ _ => by simp [setOffset]

lemma Reads.bind {r₁ : Reader α} {r₂ : α → Reader β} {e₁ e₂ : List UInt8} {x : α} {y : β}
    (h₁ : Reads r₁ e₁ x) (h₂ : Reads (r₂ x) e₂ y) : Reads (r₁ >>= r₂) (e₁ ++ e₂) y := by
  intro b rest hb
  rw [List.append_assoc] at hb
  rw [StateT.run_bind, h₁ b _ hb, Option.bind_eq_bind, Option.some_bind, h₂ _ rest hb.skip]
  simp [Nat.add_assoc]

lemma Reads.map {r : Reader α} {enc : List UInt8} {x : α} (h : Reads r enc x) (f : α → β) :
    Reads (f <$> r) enc (f x) := fun b rest hb => by simp [h b rest hb]

lemma Reads.bind_pure {r : Reader α} {enc : List UInt8} {x : α} (h : Reads r enc x)
    (f : α → β) : Reads (r >>= fun a => pure (f a)) enc (f x) := fun b rest hb => by
  simp [h b rest hb]

lemma reads_readBytes (bs : List UInt8) : Reads (readBytes bs.length) bs bs := fun b rest hb => by
  simp only [StateT.run, readBytes, if_pos hb.le_length, hb.2, List.take_left]

lemma reads_readU32 (v : UInt32) : Reads readU32 (encodeU32 v) v := by
  have h := (reads_readBytes (encodeU32 v)).map fun bytes => UInt32.ofNat (decodeLE bytes)
  rwa [length_encodeU32, ofNat_decodeLE_encodeU32] at h

lemma reads_readU64 (v : UInt64) : Reads readU64 (encodeU64 v) v := by
  have h := (reads_readBytes (encodeU64 v)).map fun bytes => UInt64.ofNat (decodeLE bytes)
  rwa [length_encodeU64, ofNat_decodeLE_encodeU64] at h

end Reads

/-! ## Reading back what was read -/

lemma encodeLE_decodeLE (bs : List UInt8) : encodeLE (decodeLE bs) bs.length = bs := by
  induction bs with
  | nil => rfl
  | cons byte bs ih =>
    have hbyte : byte.toNat < 256 := byte.toBitVec.isLt
    have hlow : UInt8.ofNat (byte.toNat + 256 * decodeLE bs) = byte :=
      UInt8.toNat.inj (by simp only [UInt8.toNat, UInt8.ofNat, BitVec.toNat_ofNat]; omega)
    rw [decodeLE, List.length_cons, encodeLE, hlow,
      show (byte.toNat + 256 * decodeLE bs) / 256 = decodeLE bs by omega, ih]

lemma decodeLE_lt (bs : List UInt8) : decodeLE bs < 256 ^ bs.length := by
  conv_lhs => rw [← encodeLE_decodeLE bs, decodeLE_encodeLE]
  exact Nat.mod_lt _ (Nat.pos_pow_of_pos _ (by decide))

namespace ReadOnlyBuffer

/-- The unread bytes of `b` began with `enc`, and `b'` is `b` moved past them. -/
def Consumed (b : ReadOnlyBuffer) (enc : List UInt8) (b' : ReadOnlyBuffer) : Prop :=
  enc <+: b.bytes.drop b.offset ∧ b' = b.setOffset (b.offset + enc.length)

lemma consumed_nil (b : ReadOnlyBuffer) : b.Consumed [] b := ⟨List.nil_prefix, rfl⟩

lemma Consumed.trans {b b₁ b₂ : ReadOnlyBuffer} {e₁ e₂ : List UInt8} (h₁ : b.Consumed e₁ b₁)
    (h₂ : b₁.Consumed e₂ b₂) : b.Consumed (e₁ ++ e₂) b₂ := by
  obtain ⟨⟨t, ht⟩, rfl⟩ := h₁
  obtain ⟨hp, rfl⟩ := h₂
  have hrest : b.bytes.drop (b.offset + e₁.length) = t := by
    rw [← List.drop_drop, ← ht, List.drop_left]
  refine ⟨?_, by simp [setOffset, Nat.add_assoc]⟩
  rw [← ht, List.prefix_append_right_inj]
  simpa [hrest] using hp

lemma Consumed.bytes_eq {b b' : ReadOnlyBuffer} {enc : List UInt8} (h : b.Consumed enc b') :
    b'.bytes = b.bytes := by
  rw [h.2, bytes_setOffset]

end ReadOnlyBuffer

/-- Whenever `r` succeeds, it moved past bytes `enc` that its result `x` is related to by
`R x enc`. -/
def Decodes {α : Type} (r : Reader α) (R : α → List UInt8 → Prop) : Prop :=
  ∀ b x b', r.run b = some (x, b') → ∃ enc, R x enc ∧ b.Consumed enc b'

section Decodes

variable {α β : Type} {r : Reader α} {R R' : α → List UInt8 → Prop}

lemma Decodes.mono (h : Decodes r R) (hR : ∀ x enc, R x enc → R' x enc) : Decodes r R' :=
  fun b x b' hr => (h b x b' hr).imp fun enc => And.imp_left (hR x enc)

lemma decodes_pure (x : α) : Decodes (pure x) fun y enc => y = x ∧ enc = [] := by
  rintro b y b' ⟨⟩
  exact ⟨[], ⟨rfl, rfl⟩, consumed_nil b⟩

lemma Decodes.bind {r₂ : α → Reader β} {R₂ : α → β → List UInt8 → Prop} (h₁ : Decodes r R)
    (h₂ : ∀ a, Decodes (r₂ a) (R₂ a)) :
    Decodes (r >>= r₂) fun y enc => ∃ a e₁ e₂, R a e₁ ∧ R₂ a y e₂ ∧ enc = e₁ ++ e₂ := by
  intro b y b' h
  rw [StateT.run_bind, Option.bind_eq_bind, Option.bind_eq_some] at h
  obtain ⟨⟨a, b₁⟩, hr, hr₂⟩ := h
  obtain ⟨e₁, hR₁, hb₁⟩ := h₁ b a b₁ hr
  obtain ⟨e₂, hR₂, hb₂⟩ := h₂ a b₁ y b' hr₂
  exact ⟨e₁ ++ e₂, ⟨a, e₁, e₂, hR₁, hR₂, rfl⟩, hb₁.trans hb₂⟩

lemma Decodes.map (h : Decodes r R) (f : α → β) :
    Decodes (f <$> r) fun y enc => ∃ x, R x enc ∧ y = f x := by
  intro b y b' hf
  simp only [StateT.run_map, Option.map_eq_map, Option.map_eq_some'] at hf
  obtain ⟨⟨x, b₁⟩, hr, hxy⟩ := hf
  obtain ⟨rfl, rfl⟩ := Prod.mk.inj hxy
  obtain ⟨enc, hR, hb⟩ := h b x b₁ hr
  exact ⟨enc, ⟨x, hR, rfl⟩, hb⟩

end Decodes

lemma decodes_readBytes (n : ℕ) : Decodes (readBytes n) fun bs enc => enc = bs ∧ bs.length = n := by
  intro b bs b' h
  simp only [StateT.run, readBytes] at h
  split_ifs at h with hle
  obtain ⟨rfl, rfl⟩ := Prod.mk.inj (Option.some.inj h)
  have hlen : ((b.bytes.drop b.offset).take n).length = n := by
    rw [List.length_take, List.length_drop]
    omega
  exact ⟨_, ⟨rfl, hlen⟩, List.take_prefix _ _, by rw [hlen]⟩

lemma decodes_readU32 : Decodes readU32 fun v enc => enc = encodeU32 v :=
  ((decodes_readBytes 4).map _).mono <| by
    rintro _ bs ⟨_, ⟨rfl, hlen⟩, rfl⟩
    have hlt : decodeLE bs < UInt32.size := by simpa [hlen] using decodeLE_lt bs
    rw [encodeU32, UInt32.toNat_ofNat_of_lt hlt, ← hlen, encodeLE_decodeLE]

lemma decodes_readU64 : Decodes readU64 fun v enc => enc = encodeU64 v :=
  ((decodes_readBytes 8).map _).mono <| by
    rintro _ bs ⟨_, ⟨rfl, hlen⟩, rfl⟩
    have hlt : decodeLE bs < UInt64.size := by simpa [hlen] using decodeLE_lt bs
    rw [encodeU64, UInt64.toNat_ofNat_of_lt hlt, ← hlen, encodeLE_decodeLE]

end Tachyon.Base
