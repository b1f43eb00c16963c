/-!
# SHA-256 digests

The SHA-256 digest of a text in UTF-8, in hexadecimal form. The constants are the first 32 bits
behind the point of the square roots of the first 8 primes and of the cube roots of the first 64.

Main definitions:

* `Digest.ofText`: the digest of a text.
* `Digest.hex`: its 64 hexadecimal digits.
-/

namespace BindingPlan

/-- Eight words: the chaining state, and in the end the digest. -/
structure Digest where
  a : UInt32
  b : UInt32
  c : UInt32
  d : UInt32
  e : UInt32
  f : UInt32
  g : UInt32
  h : UInt32
deriving DecidableEq, Repr

namespace Digest

/-! ## Constants -/

/-- The first primes, up to 311. -/
def primes : List Nat :=
  (List.range 312).filter fun n => 2 ≤ n && (List.range n).all fun d => d < 2 || n % d != 0

/-- The largest number below `2 ^ 36` whose power is at most the given number, bit by bit from the
highest. -/
def root (power n : Nat) : Nat :=
  (List.range 36).foldr
    (fun bit found =>
      let next := found + Nat.pow 2 bit
      if Nat.pow next power ≤ n then next else found)
    0

/-- The first 32 bits behind the point of a root. -/
def rootBits (power n : Nat) : UInt32 :=
  (root power (n * Nat.pow 2 (32 * power))).toUInt32

/-- The chaining state before the first block. -/
def initial : Digest :=
  let bits (i : Nat) : UInt32 := rootBits 2 (primes.getD i 0)
  ⟨bits 0, bits 1, bits 2, bits 3, bits 4, bits 5, bits 6, bits 7⟩

/-- One constant for each round. -/
def roundConstants : List UInt32 :=
  (primes.take 64).map (rootBits 3)

/-! ## Compression -/

def rotateRight (x n : UInt32) : UInt32 :=
  x >>> n ||| x <<< (32 - n)

/-- The next word of a schedule, from the sixteen words before it. -/
def nextWord (words : Array UInt32) : UInt32 :=
  let word (back : Nat) : UInt32 := words.getD (words.size - back) 0
  let x := word 15
  let y := word 2
  let s := rotateRight x 7 ^^^ rotateRight x 18 ^^^ x >>> 3
  let t := rotateRight y 17 ^^^ rotateRight y 19 ^^^ y >>> 10
  word 16 + s + word 7 + t

/-- The words of a block, extended to one for each round. -/
def schedule (block : Array UInt32) : Array UInt32 :=
  (List.range 48).foldl (fun words _ => words.push (nextWord words)) block

/-- One round, with its constant and its word. -/
def round (v : Digest) (constant word : UInt32) : Digest :=
  let s := rotateRight v.e 6 ^^^ rotateRight v.e 11 ^^^ rotateRight v.e 25
  let choice := (v.e &&& v.f) ^^^ (~~~v.e &&& v.g)
  let x := v.h + s + choice + constant + word
  let t := rotateRight v.a 2 ^^^ rotateRight v.a 13 ^^^ rotateRight v.a 22
  let majority := (v.a &&& v.b) ^^^ (v.a &&& v.c) ^^^ (v.b &&& v.c)
  ⟨x + t + majority, v.a, v.b, v.c, v.d + x, v.e, v.f, v.g⟩

def add (v w : Digest) : Digest :=
  ⟨v.a + w.a, v.b + w.b, v.c + w.c, v.d + w.d, v.e + w.e, v.f + w.f, v.g + w.g, v.h + w.h⟩

/-- The chaining state after a block of sixteen words. -/
def compress (state : Digest) (block : Array UInt32) : Digest :=
  let rounds := roundConstants.zip (schedule block).toList
  state.add (rounds.foldl (fun v (constant, word) => v.round constant word) state)

/-! ## Messages -/

/-- The bytes of a number, from the highest to the lowest. -/
def bytesOf (count n : Nat) : List UInt8 :=
  (List.range count).reverse.map fun i => (n / Nat.pow 256 i).toUInt8

/-- A message with a closing bit, as few zero bytes as fill the last block, and its length in
bits. -/
def padded (message : List UInt8) : List UInt8 :=
  let zeros := (119 - message.length % 64) % 64
  message ++ 0x80 :: List.replicate zeros 0 ++ bytesOf 8 (8 * message.length)

/-- Words of four bytes each, from the highest to the lowest. -/
def wordsOf : List UInt8 → List UInt32
  | p :: q :: r :: s :: bytes =>
    (p.toUInt32 <<< 24 ||| q.toUInt32 <<< 16 ||| r.toUInt32 <<< 8 ||| s.toUInt32) :: wordsOf bytes
  | _ => []

def ofBytes (message : List UInt8) : Digest :=
  let words := (wordsOf (padded message)).toArray
  (List.range (words.size / 16)).foldl
    (fun state i => state.compress (words.extract (16 * i) (16 * i + 16))) initial

/-- The digest of the UTF-8 form of a text (`sha256`). -/
def ofText (text : String) : Digest :=
  ofBytes text.toUTF8.toList

/-- A word in eight hexadecimal digits. -/
def hexWord (word : UInt32) : List Char :=
  (List.range 8).reverse.map fun i => Nat.digitChar (word.toNat / Nat.pow 16 i % 16)

/-- The digest in hexadecimal digits, in lower case (`bytes_to_hex`). -/
def hex (v : Digest) : String :=
  String.ofList ([v.a, v.b, v.c, v.d, v.e, v.f, v.g, v.h].flatMap hexWord)

end Digest
end BindingPlan
