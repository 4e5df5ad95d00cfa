import Mathlib

/-!
# Fixed-size binary layouts

A `Codec α` writes a value of `α` as a fixed number of bytes and reads it back.
The two laws are fields, so a layout built from the combinators below is correct
by construction. `decode` is total: it is only ever applied to enough bytes, and
`decode_append` says what it returns there, whatever follows.
-/

set_option autoImplicit false

universe u

/-- A layout of fixed size together with its round trip. -/
structure Codec (α : Type u) where
  size : Nat
  encode : α → List UInt8
  decode : List UInt8 → α
  length_encode : ∀ a, (encode a).length = size
  decode_append : ∀ a rest, decode (encode a ++ rest) = a

namespace Codec
variable {α β : Type u}

attribute [simp] length_encode decode_append

@[simp] theorem decode_encode (c : Codec α) (a : α) : c.decode (c.encode a) = a := by
  simpa using c.decode_append a []

theorem drop_encode_append (c : Codec α) (a : α) (rest : List UInt8) :
    (c.encode a ++ rest).drop c.size = rest := by
  rw [List.drop_append_of_le_length (by simp)]
  simp

/-- Little-endian bytes of `n`, as many as asked for. -/
def natBytes : Nat → Nat → List UInt8
  | 0, _ => []
  | k + 1, n => UInt8.ofNat n :: natBytes k (n / 256)

/-- The number whose little-endian bytes are the first `k` of the list. -/
def bytesNat : Nat → List UInt8 → Nat
  | 0, _ => 0
  | k + 1, l => (l.headD 0).toNat + 256 * bytesNat k l.tail

@[simp] theorem length_natBytes (k n : Nat) : (natBytes k n).length = k := by
  induction k generalizing n with
  | zero => rfl
  | succ k ih => simp [natBytes, ih]

theorem bytesNat_natBytes (k n : Nat) (rest : List UInt8) :
    bytesNat k (natBytes k n ++ rest) = n % 256 ^ k := by
  induction k generalizing n with
  | zero => simp [bytesNat, Nat.mod_one]
  | succ k ih =>
    simp only [natBytes, bytesNat, List.cons_append, List.headD_cons, List.tail_cons, ih]
    rw [Nat.pow_succ, Nat.mul_comm (256 ^ k), Nat.mod_mul]
    simp

/-- An integer type whose values are the numbers below `256 ^ k`. -/
def ofNatLike (k : Nat) (toNat : α → Nat) (ofNat : Nat → α) (lt : ∀ a, toNat a < 256 ^ k)
    (ofNat_toNat : ∀ a, ofNat (toNat a) = a) : Codec α where
  size := k
  encode a := natBytes k (toNat a)
  decode l := ofNat (bytesNat k l)
  length_encode a := length_natBytes k (toNat a)
  decode_append a rest := by
    rw [bytesNat_natBytes, Nat.mod_eq_of_lt (lt a), ofNat_toNat]

def u8 : Codec UInt8 :=
  ofNatLike 1 UInt8.toNat UInt8.ofNat (fun a => a.toNat_lt) (fun _ => UInt8.ofNat_toNat)

def u16 : Codec UInt16 :=
  ofNatLike 2 UInt16.toNat UInt16.ofNat (fun a => a.toNat_lt) (fun _ => UInt16.ofNat_toNat)

def u32 : Codec UInt32 :=
  ofNatLike 4 UInt32.toNat UInt32.ofNat (fun a => a.toNat_lt) (fun _ => UInt32.ofNat_toNat)

def u64 : Codec UInt64 :=
  ofNatLike 8 UInt64.toNat UInt64.ofNat (fun a => a.toNat_lt) (fun _ => UInt64.ofNat_toNat)

/-- Bytes that belong to no field. -/
def pad (k : Nat) : Codec Unit where
  size := k
  encode _ := List.replicate k 0
  decode _ := ()
  length_encode _ := List.length_replicate
  decode_append _ _ := rfl

def pair {α β : Type} (c : Codec α) (d : Codec β) : Codec (α × β) where
  size := c.size + d.size
  encode p := c.encode p.1 ++ d.encode p.2
  decode l := (c.decode l, d.decode (l.drop c.size))
  length_encode p := by simp
  decode_append p rest := by
    rw [List.append_assoc, c.decode_append, c.drop_encode_append, d.decode_append]

/-- The same bytes read as another type. -/
def map {α β : Type} (c : Codec α) (f : α → β) (g : β → α) (h : ∀ b, f (g b) = b) : Codec β where
  size := c.size
  encode b := c.encode (g b)
  decode l := f (c.decode l)
  length_encode b := c.length_encode (g b)
  decode_append b rest := by rw [c.decode_append, h]

def encodeList (c : Codec α) : List α → List UInt8
  | [] => []
  | a :: as => c.encode a ++ encodeList c as

def decodeList (c : Codec α) : Nat → List UInt8 → List α
  | 0, _ => []
  | n + 1, l => c.decode l :: decodeList c n (l.drop c.size)

theorem length_encodeList (c : Codec α) (as : List α) :
    (c.encodeList as).length = as.length * c.size := by
  induction as with
  | nil => simp [encodeList]
  | cons a as ih => simp [encodeList, ih, Nat.add_mul, Nat.add_comm]

@[simp] theorem length_decodeList (c : Codec α) (n : Nat) (l : List UInt8) :
    (c.decodeList n l).length = n := by
  induction n generalizing l with
  | zero => rfl
  | succ n ih => simp [decodeList, ih]

theorem decodeList_encodeList (c : Codec α) (as : List α) (rest : List UInt8) :
    c.decodeList as.length (c.encodeList as ++ rest) = as := by
  induction as with
  | nil => rfl
  | cons a as ih =>
    simp only [List.length_cons, encodeList, decodeList, List.append_assoc, decode_append,
      drop_encode_append, ih]

def vector {α : Type} (c : Codec α) (n : Nat) : Codec (Vector α n) where
  size := n * c.size
  encode v := c.encodeList v.toList
  decode l := ⟨⟨c.decodeList n l⟩, by simp⟩
  length_encode v := by rw [length_encodeList, Vector.length_toList]
  decode_append v rest := by
    have h := c.decodeList_encodeList v.toList rest
    rw [Vector.length_toList] at h
    simp only [h]
    rfl

end Codec
