/-
The ChaCha stream of twelve rounds.

A block mixes a key of eight words and the number of the block into sixteen words; the stream
is the words of block 0, block 1, and so on.

* `ChaCha.quarterRound` — mixes four words of a block;
* `ChaCha.block` — the words of one block.
-/
namespace DocumentRules.ChaCha

/-- A block of sixteen words. -/
abbrev Words := Vector UInt32 16

/-- Rotate a word to the left, by an amount from 1 to 31. -/
def rotateLeft (x : UInt32) (n : UInt32) : UInt32 := (x <<< n) ||| (x >>> (32 - n))

/-- Mix four words. -/
def quarterRound (s : Words) (a b c d : Fin 16) : Words :=
  let s := s.set a (s[a] + s[b])
  let s := s.set d (rotateLeft (s[d] ^^^ s[a]) 16)
  let s := s.set c (s[c] + s[d])
  let s := s.set b (rotateLeft (s[b] ^^^ s[c]) 12)
  let s := s.set a (s[a] + s[b])
  let s := s.set d (rotateLeft (s[d] ^^^ s[a]) 8)
  let s := s.set c (s[c] + s[d])
  s.set b (rotateLeft (s[b] ^^^ s[c]) 7)

/-- Mix the columns, then the diagonals, of the words as a square of four by four. -/
def doubleRound (s : Words) : Words :=
  let s := quarterRound s 0 4 8 12
  let s := quarterRound s 1 5 9 13
  let s := quarterRound s 2 6 10 14
  let s := quarterRound s 3 7 11 15
  let s := quarterRound s 0 5 10 15
  let s := quarterRound s 1 6 11 12
  let s := quarterRound s 2 7 8 13
  quarterRound s 3 4 9 14

def doubleRounds : Nat → Words → Words
  | 0, s => s
  | n + 1, s => doubleRounds n (doubleRound s)

/-- What a block is mixed from: the text "expand 32-byte k", the key, the number of the block
in two words and two zeros. -/
def initial (key : Vector UInt32 8) (number : UInt64) : Words :=
  #v[0x61707865, 0x3320646e, 0x79622d32, 0x6b206574,
     key[0], key[1], key[2], key[3], key[4], key[5], key[6], key[7],
     number.toUInt32, (number >>> 32).toUInt32, 0, 0]

def block (key : Vector UInt32 8) (number : UInt64) : Words :=
  let s := initial key number
  (doubleRounds 6 s).zipWith (· + ·) s

end DocumentRules.ChaCha
