/-!
A reproducible stream of 32-bit words: ChaCha with eight rounds, a 64-bit block counter from
zero and a zero nonce, under a key that a linear congruential generator spreads out of a 64-bit
seed. Word `n` of the stream is a function of the key and `n`.
-/

namespace CommandWord.Keystream

abbrev Block := Vector UInt32 16

abbrev Key := Vector UInt32 8

def rotateLeft (word : UInt32) (count : UInt32) : UInt32 :=
  word <<< count ||| word >>> (32 - count)

def rotateRight (word : UInt32) (count : UInt32) : UInt32 :=
  word >>> count ||| word <<< (32 - count)

def quarterRound (block : Block) (i j k l : Fin 16) : Block :=
  let a := block[i] + block[j]
  let d := rotateLeft (block[l] ^^^ a) 16
  let c := block[k] + d
  let b := rotateLeft (block[j] ^^^ c) 12
  let a := a + b
  let d := rotateLeft (d ^^^ a) 8
  let c := c + d
  let b := rotateLeft (b ^^^ c) 7
  (((block.set i a).set j b).set k c).set l d

def doubleRound (block : Block) : Block :=
  [(0, 4, 8, 12), (1, 5, 9, 13), (2, 6, 10, 14), (3, 7, 11, 15),
    (0, 5, 10, 15), (1, 6, 11, 12), (2, 7, 8, 13), (3, 4, 9, 14)].foldl
    (fun block (i, j, k, l) => quarterRound block i j k l) block

/-- The block before its rounds: the constants, the key, the counter and the nonce. -/
def start (key : Key) (counter : Nat) : Block :=
  #v[0x61707865, 0x3320646e, 0x79622d32, 0x6b206574,
    key[0], key[1], key[2], key[3], key[4], key[5], key[6], key[7],
    UInt32.ofNat counter, UInt32.ofNat (counter >>> 32), 0, 0]

def block (key : Key) (counter : Nat) : Block :=
  let first := start key counter
  let mixed := doubleRound (doubleRound (doubleRound (doubleRound first)))
  Vector.zipWith (· + ·) mixed first

def word (key : Key) (n : Nat) : UInt32 :=
  (block key (n / 16)).get (Fin.ofNat 16 n)

def advance (state : UInt64) : UInt64 :=
  state * 6364136223846793005 + 11634580027462260723

def output (state : UInt64) : UInt32 :=
  rotateRight (((state >>> 18) ^^^ state) >>> 27).toUInt32 (state >>> 59).toUInt32

def keyWords : Nat → UInt64 → List UInt32
  | 0, _ => []
  | count + 1, state =>
      let next := advance state
      output next :: keyWords count next

theorem length_keyWords (count : Nat) (state : UInt64) :
    (keyWords count state).length = count := by
  induction count generalizing state with
  | zero => rfl
  | succ count ih => simp [keyWords, ih]

def keyOfSeed (seed : UInt64) : Key :=
  ⟨(keyWords 8 seed).toArray, by simp [length_keyWords]⟩

end CommandWord.Keystream
