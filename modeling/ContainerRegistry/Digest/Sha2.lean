/-
# The SHA-2 hashes, over a whole message and byte by byte

SHA-256 and SHA-512 are one algorithm on words of 32 and 64 bits (`Word`); a
`Variant` holds what else differs. A message is padded to whole blocks of sixteen words, and
each block is compressed into eight words, whose bytes are the hash
(`Variant.hash`). A running hash takes the message byte by byte: it holds back
the bytes of the unfinished block and compresses the block that a byte fills
(`Variant.feed`). Feeding a message in any cuts and finishing is hashing it
whole (`Variant.finish_feedAll`).

Key definitions: `Sha2.Word`, `Sha2.Variant`, `Sha2.Variant.hash`, `Sha2.State`,
`Sha2.Variant.feed`, `Sha2.Variant.finish`, `Sha2.sha256`, `Sha2.sha512`.
Key theorems: `Sha2.Variant.feedAll_append`, `Sha2.Variant.finish_feedAll`,
`Sha2.Words.length_bytes`.
-/
import ContainerRegistry.Bytes

namespace ContainerRegistry
namespace Sha2

/-- The operations on the words of a hash. Shifts take the number of bits as a word. -/
class Word (α : Type) extends Add α, Sub α, AndOp α, OrOp α, XorOp α, Complement α, ShiftLeft α,
    ShiftRight α where
  /-- The number of bytes. -/
  size : Nat
  /-- The number of bits. -/
  bits : α
  /-- The word of a number. -/
  ofNat : Nat → α
  /-- The lowest byte. -/
  lowByte : α → UInt8

instance : Word UInt32 where
  size := 4
  bits := 32
  ofNat := UInt32.ofNat
  lowByte := UInt32.toUInt8

instance : Word UInt64 where
  size := 8
  bits := 64
  ofNat := UInt64.ofNat
  lowByte := UInt64.toUInt8

/-- Eight words: the chaining value, and the working variables of a block. -/
structure Words (α : Type) where
  a : α
  b : α
  c : α
  d : α
  e : α
  f : α
  g : α
  h : α
  deriving DecidableEq, Repr

/-- What one SHA-2 hash has of its own. -/
structure Variant (α : Type) where
  /-- The chaining value before the first block. -/
  initial : Words α
  /-- One constant for each round. -/
  constants : List α
  /-- The rotations of the round function at `a`. -/
  sumA : α × α × α
  /-- The rotations of the round function at `e`. -/
  sumE : α × α × α
  /-- Two rotations and a shift for the schedule, at the word fifteen back. -/
  mixFar : α × α × α
  /-- Two rotations and a shift for the schedule, at the word two back. -/
  mixNear : α × α × α
  /-- The number of bytes in which the padding states the length. -/
  lengthBytes : Nat

section Words

variable {α : Type} [Word α]

/-- The bytes of a word, the highest first. -/
@[specialize]
def wordBytes (x : α) : Bytes :=
  (List.range (Word.size α)).reverse.map fun i => Word.lowByte (x >>> (Word.ofNat (8 * i) : α))

/-- The word of bytes, the highest first. -/
@[specialize]
def ofWordBytes (bytes : Bytes) : α :=
  bytes.foldl (fun x b => (x <<< (Word.ofNat 8 : α)) ||| Word.ofNat b.toNat) (Word.ofNat 0)

/-- The bytes of eight words. -/
@[specialize]
def Words.bytes (x : Words α) : Bytes :=
  [x.a, x.b, x.c, x.d, x.e, x.f, x.g, x.h].flatMap wordBytes

/-- Word by word addition. -/
@[specialize]
def Words.add (x y : Words α) : Words α :=
  ⟨x.a + y.a, x.b + y.b, x.c + y.c, x.d + y.d, x.e + y.e, x.f + y.f, x.g + y.g, x.h + y.h⟩

theorem length_wordBytes (x : α) : (wordBytes x).length = Word.size α := by
  simp [wordBytes]

theorem Words.length_bytes (x : Words α) : x.bytes.length = 8 * Word.size α := by
  simp [Words.bytes, length_wordBytes]
  omega

/-- A word with its lowest bits moved round to the top. -/
@[specialize]
def rotate (r x : α) : α :=
  (x >>> r) ||| (x <<< (Word.bits - r))

/-- Three rotations of a word, combined. -/
@[specialize]
def rotations (r : α × α × α) (x : α) : α :=
  rotate r.1 x ^^^ rotate r.2.1 x ^^^ rotate r.2.2 x

/-- Two rotations and a shift of a word, combined. -/
@[specialize]
def mix (r : α × α × α) (x : α) : α :=
  rotate r.1 x ^^^ rotate r.2.1 x ^^^ (x >>> r.2.2)

end Words

namespace Variant

variable {α : Type} [Word α] (v : Variant α)

/-- The number of bytes of a block: sixteen words. -/
def blockBytes (_ : Variant α) : Nat :=
  16 * Word.size α

/-- The words of a block. -/
@[specialize]
def blockWords (_ : Variant α) (block : Bytes) : List α :=
  (List.range 16).map fun i => ofWordBytes ((block.drop (i * Word.size α)).take (Word.size α))

/-- The schedule's next word, after the sixteen words before it. -/
@[specialize]
def nextWord (window : List α) : α :=
  let zero : α := Word.ofNat 0
  mix v.mixNear (window.getD 14 zero) + window.getD 9 zero + mix v.mixFar (window.getD 1 zero) +
    window.getD 0 zero

/-- One round, with its constant and the schedule's word. -/
@[specialize]
def round (x : Words α) (constant word : α) : Words α :=
  let choice := (x.e &&& x.f) ^^^ (~~~x.e &&& x.g)
  let majority := (x.a &&& x.b) ^^^ (x.a &&& x.c) ^^^ (x.b &&& x.c)
  let first := x.h + rotations v.sumE x.e + choice + constant + word
  let second := rotations v.sumA x.a + majority
  ⟨first + second, x.a, x.b, x.c, x.d + first, x.e, x.f, x.g⟩

/-- The chaining value after a block. -/
@[specialize]
def compress (x : Words α) (block : Bytes) : Words α :=
  let step := fun (s : Words α × List α) constant =>
    (v.round s.1 constant (s.2.headD (Word.ofNat 0)), s.2.tail ++ [v.nextWord s.2])
  x.add (v.constants.foldl step (x, v.blockWords block)).1

/-- The bytes that pad a message of `count` bytes to whole blocks: a set bit,
zeros, and the length in bits. -/
def padding (count : Nat) : Bytes :=
  let zeros := (2 * v.blockBytes - 1 - v.lengthBytes - count % v.blockBytes) % v.blockBytes
  0x80 :: (List.replicate zeros (0 : UInt8) ++
    (List.range v.lengthBytes).reverse.map fun i => UInt8.ofNat ((8 * count) >>> (8 * i)))

/-- The first `count` blocks of a byte string. -/
def blocks : Nat → Bytes → List Bytes
  | 0, _ => []
  | count + 1, bytes => bytes.take v.blockBytes :: blocks count (bytes.drop v.blockBytes)

/-- The hash of a message. -/
@[specialize]
def hash (message : Bytes) : Bytes :=
  let padded := message ++ v.padding message.length
  ((v.blocks (padded.length / v.blockBytes) padded).foldl v.compress v.initial).bytes

end Variant

/-- A hash under way. -/
structure State (α : Type) where
  /-- The chaining value after the whole blocks so far. -/
  words : Words α
  /-- The bytes since the last whole block, the newest first. -/
  pending : Bytes
  /-- The number of bytes so far. -/
  count : Nat
  deriving DecidableEq, Repr

namespace Variant

variable {α : Type} [Word α] (v : Variant α)

/-- The hash of nothing yet. -/
def start : State α :=
  ⟨v.initial, [], 0⟩

/-- Takes one more byte, and compresses the block that it fills. -/
@[specialize]
def feed (s : State α) (b : UInt8) : State α :=
  let count := s.count + 1
  if count % v.blockBytes = 0 then ⟨v.compress s.words (b :: s.pending).reverse, [], count⟩
  else ⟨s.words, b :: s.pending, count⟩

/-- Takes more bytes. -/
@[specialize]
def feedAll (s : State α) (bytes : Bytes) : State α :=
  bytes.foldl v.feed s

/-- The hash of the bytes so far. -/
@[specialize]
def finish (s : State α) : Bytes :=
  (v.feedAll s (v.padding s.count)).words.bytes

theorem one_lt_blockBytes (hw : 0 < Word.size α) : 1 < v.blockBytes := by
  unfold blockBytes
  omega

theorem feedAll_append (s : State α) (x y : Bytes) :
    v.feedAll s (x ++ y) = v.feedAll (v.feedAll s x) y :=
  List.foldl_append

theorem count_feedAll : ∀ (bytes : Bytes) (s : State α),
    (v.feedAll s bytes).count = s.count + bytes.length
  | [], _ => rfl
  | b :: bytes, s => by
    have ih := count_feedAll bytes (v.feed s b)
    have step : (v.feed s b).count = s.count + 1 := by
      unfold feed
      simp only
      split <;> rfl
    rw [step] at ih
    simp only [feedAll, List.foldl_cons, List.length_cons] at ih ⊢
    omega

/-- Bytes that fill no block are held back. -/
theorem feedAll_short : ∀ (bytes : Bytes) (s : State α),
    s.count % v.blockBytes + bytes.length < v.blockBytes →
    v.feedAll s bytes = ⟨s.words, bytes.reverse ++ s.pending, s.count + bytes.length⟩
  | [], _, _ => rfl
  | b :: bytes, s, h => by
    simp only [List.length_cons] at h
    have one : (s.count + 1) % v.blockBytes = s.count % v.blockBytes + 1 := by
      rw [Nat.add_mod, Nat.mod_eq_of_lt (show 1 < v.blockBytes by omega),
        Nat.mod_eq_of_lt (by omega)]
    have step : v.feed s b = ⟨s.words, b :: s.pending, s.count + 1⟩ := by
      unfold feed
      simp only
      rw [if_neg (by omega)]
    have rest : (s.count + 1) % v.blockBytes + bytes.length < v.blockBytes := by omega
    show v.feedAll (v.feed s b) bytes = _
    rw [step, feedAll_short bytes _ rest]
    simp only [List.reverse_cons, List.append_assoc, List.singleton_append, List.length_cons,
      State.mk.injEq, true_and]
    omega

/-- A whole block from a block's edge is compressed. -/
theorem feedAll_block {block : Bytes} {s : State α} (hw : 0 < Word.size α)
    (edge : s.count % v.blockBytes = 0) (fresh : s.pending = [])
    (size : block.length = v.blockBytes) :
    v.feedAll s block = ⟨v.compress s.words block, [], s.count + v.blockBytes⟩ := by
  have positive : 1 < v.blockBytes := v.one_lt_blockBytes hw
  have nonempty : block ≠ [] := by
    intro h
    rw [h, List.length_nil] at size
    omega
  have cut := List.dropLast_concat_getLast nonempty
  have short : block.dropLast.length = v.blockBytes - 1 := by rw [List.length_dropLast, size]
  have full : (s.count + block.dropLast.length + 1) % v.blockBytes = 0 := by
    rw [short, show s.count + (v.blockBytes - 1) + 1 = s.count + v.blockBytes by omega,
      Nat.add_mod_right, edge]
  have whole : v.feedAll s (block.dropLast ++ [block.getLast nonempty]) =
      ⟨v.compress s.words (block.dropLast ++ [block.getLast nonempty]), [],
        s.count + block.dropLast.length + 1⟩ := by
    rw [feedAll_append, feedAll_short v block.dropLast s (by omega), fresh, List.append_nil]
    show v.feed _ _ = _
    unfold feed
    simp only
    rw [if_pos full, List.reverse_cons, List.reverse_reverse]
  rw [cut] at whole
  rw [whole, short]
  simp only [State.mk.injEq, true_and]
  omega

/-- Whole blocks from a block's edge are compressed one after the other, and leave nothing over. -/
theorem feedAll_blocks (hw : 0 < Word.size α) : ∀ (count : Nat) (bytes : Bytes) (s : State α),
    s.count % v.blockBytes = 0 → s.pending = [] → bytes.length = count * v.blockBytes →
    v.feedAll s bytes =
      ⟨(v.blocks count bytes).foldl v.compress s.words, [], s.count + bytes.length⟩
  | 0, bytes, s, _, fresh, size => by
    rw [Nat.zero_mul, List.length_eq_zero_iff] at size
    rw [size]
    show s = ⟨s.words, [], s.count⟩
    rw [← fresh]
  | count + 1, bytes, s, edge, fresh, size => by
    rw [Nat.add_mul, Nat.one_mul] at size
    have head : (bytes.take v.blockBytes).length = v.blockBytes := by
      rw [List.length_take]
      omega
    have rest : (bytes.drop v.blockBytes).length = count * v.blockBytes := by
      rw [List.length_drop, size]
      omega
    have cut : v.feedAll s bytes =
        v.feedAll (v.feedAll s (bytes.take v.blockBytes)) (bytes.drop v.blockBytes) := by
      rw [← feedAll_append, List.take_append_drop]
    have total : s.count + v.blockBytes + count * v.blockBytes = s.count + bytes.length := by
      omega
    rw [cut, feedAll_block v hw edge fresh head,
      feedAll_blocks hw count _ _ (by simp [edge]) rfl rest, rest, ← total]
    rfl

theorem length_padding (count : Nat) : (v.padding count).length =
    1 + (2 * v.blockBytes - 1 - v.lengthBytes - count % v.blockBytes) % v.blockBytes +
      v.lengthBytes := by
  simp [padding]
  omega

/-- The padding ends at a block's edge. -/
theorem padded_mod (room : v.lengthBytes < v.blockBytes) (count : Nat) :
    (count + (v.padding count).length) % v.blockBytes = 0 := by
  have positive : 0 < v.blockBytes := by omega
  have low : count % v.blockBytes < v.blockBytes := Nat.mod_lt _ positive
  have split := Nat.div_add_mod count v.blockBytes
  rw [length_padding]
  generalize hz : 2 * v.blockBytes - 1 - v.lengthBytes - count % v.blockBytes = z
  have zsplit := Nat.div_add_mod z v.blockBytes
  have total : count + (1 + z % v.blockBytes + v.lengthBytes) + v.blockBytes * (z / v.blockBytes) =
      v.blockBytes * (count / v.blockBytes + 2) := by
    rw [Nat.mul_add]
    omega
  have multiple := congrArg (· % v.blockBytes) total
  simp only [Nat.add_mul_mod_self_left, Nat.mul_mod_right] at multiple
  exact multiple

/-- **Feeding and finishing is hashing.** -/
theorem finish_feedAll (hw : 0 < Word.size α) (room : v.lengthBytes < v.blockBytes)
    (message : Bytes) :
    v.finish (v.feedAll v.start message) = v.hash message := by
  have count : (v.feedAll v.start message).count = message.length := by
    rw [count_feedAll]
    simp [start]
  have whole := padded_mod v room message.length
  unfold finish hash
  simp only
  rw [count, ← feedAll_append, feedAll_blocks v hw
    ((message ++ v.padding message.length).length / v.blockBytes) _ _ (by simp [start]) rfl]
  · rfl
  · rw [List.length_append]
    exact (Nat.div_mul_cancel (Nat.dvd_of_mod_eq_zero whole)).symm

end Variant

/-- SHA-256. -/
def sha256 : Variant UInt32 where
  initial := ⟨0x6a09e667, 0xbb67ae85, 0x3c6ef372, 0xa54ff53a, 0x510e527f, 0x9b05688c, 0x1f83d9ab,
    0x5be0cd19⟩
  constants := [
    0x428a2f98, 0x71374491, 0xb5c0fbcf, 0xe9b5dba5, 0x3956c25b, 0x59f111f1, 0x923f82a4, 0xab1c5ed5,
    0xd807aa98, 0x12835b01, 0x243185be, 0x550c7dc3, 0x72be5d74, 0x80deb1fe, 0x9bdc06a7, 0xc19bf174,
    0xe49b69c1, 0xefbe4786, 0x0fc19dc6, 0x240ca1cc, 0x2de92c6f, 0x4a7484aa, 0x5cb0a9dc, 0x76f988da,
    0x983e5152, 0xa831c66d, 0xb00327c8, 0xbf597fc7, 0xc6e00bf3, 0xd5a79147, 0x06ca6351, 0x14292967,
    0x27b70a85, 0x2e1b2138, 0x4d2c6dfc, 0x53380d13, 0x650a7354, 0x766a0abb, 0x81c2c92e, 0x92722c85,
    0xa2bfe8a1, 0xa81a664b, 0xc24b8b70, 0xc76c51a3, 0xd192e819, 0xd6990624, 0xf40e3585, 0x106aa070,
    0x19a4c116, 0x1e376c08, 0x2748774c, 0x34b0bcb5, 0x391c0cb3, 0x4ed8aa4a, 0x5b9cca4f, 0x682e6ff3,
    0x748f82ee, 0x78a5636f, 0x84c87814, 0x8cc70208, 0x90befffa, 0xa4506ceb, 0xbef9a3f7, 0xc67178f2]
  sumA := (2, 13, 22)
  sumE := (6, 11, 25)
  mixFar := (7, 18, 3)
  mixNear := (17, 19, 10)
  lengthBytes := 8

/-- SHA-512. -/
def sha512 : Variant UInt64 where
  initial := ⟨0x6a09e667f3bcc908, 0xbb67ae8584caa73b, 0x3c6ef372fe94f82b, 0xa54ff53a5f1d36f1,
    0x510e527fade682d1, 0x9b05688c2b3e6c1f, 0x1f83d9abfb41bd6b, 0x5be0cd19137e2179⟩
  constants := [
    0x428a2f98d728ae22, 0x7137449123ef65cd, 0xb5c0fbcfec4d3b2f, 0xe9b5dba58189dbbc,
    0x3956c25bf348b538, 0x59f111f1b605d019, 0x923f82a4af194f9b, 0xab1c5ed5da6d8118,
    0xd807aa98a3030242, 0x12835b0145706fbe, 0x243185be4ee4b28c, 0x550c7dc3d5ffb4e2,
    0x72be5d74f27b896f, 0x80deb1fe3b1696b1, 0x9bdc06a725c71235, 0xc19bf174cf692694,
    0xe49b69c19ef14ad2, 0xefbe4786384f25e3, 0x0fc19dc68b8cd5b5, 0x240ca1cc77ac9c65,
    0x2de92c6f592b0275, 0x4a7484aa6ea6e483, 0x5cb0a9dcbd41fbd4, 0x76f988da831153b5,
    0x983e5152ee66dfab, 0xa831c66d2db43210, 0xb00327c898fb213f, 0xbf597fc7beef0ee4,
    0xc6e00bf33da88fc2, 0xd5a79147930aa725, 0x06ca6351e003826f, 0x142929670a0e6e70,
    0x27b70a8546d22ffc, 0x2e1b21385c26c926, 0x4d2c6dfc5ac42aed, 0x53380d139d95b3df,
    0x650a73548baf63de, 0x766a0abb3c77b2a8, 0x81c2c92e47edaee6, 0x92722c851482353b,
    0xa2bfe8a14cf10364, 0xa81a664bbc423001, 0xc24b8b70d0f89791, 0xc76c51a30654be30,
    0xd192e819d6ef5218, 0xd69906245565a910, 0xf40e35855771202a, 0x106aa07032bbd1b8,
    0x19a4c116b8d2d0c8, 0x1e376c085141ab53, 0x2748774cdf8eeb99, 0x34b0bcb5e19b48a8,
    0x391c0cb3c5c95a63, 0x4ed8aa4ae3418acb, 0x5b9cca4f7763e373, 0x682e6ff3d6b2b8a3,
    0x748f82ee5defb2fc, 0x78a5636f43172f60, 0x84c87814a1f0ab72, 0x8cc702081a6439ec,
    0x90befffa23631e28, 0xa4506cebde82bde9, 0xbef9a3f7b2c67915, 0xc67178f2e372532b,
    0xca273eceea26619c, 0xd186b8c721c0c207, 0xeada7dd6cde0eb1e, 0xf57d4f7fee6ed178,
    0x06f067aa72176fba, 0x0a637dc5a2c898a6, 0x113f9804bef90dae, 0x1b710b35131c471b,
    0x28db77f523047d84, 0x32caab7b40c72493, 0x3c9ebe0a15c9bebc, 0x431d67c49c100d4c,
    0x4cc5d4becb3e42b6, 0x597f299cfc657e2a, 0x5fcb6fab3ad6faec, 0x6c44198c4a475817]
  sumA := (28, 34, 39)
  sumE := (14, 18, 41)
  mixFar := (1, 8, 7)
  mixNear := (19, 61, 6)
  lengthBytes := 16

end Sha2
end ContainerRegistry
