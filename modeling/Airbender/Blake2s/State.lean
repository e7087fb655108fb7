import Mathlib

/-!
# Blake2s on 32-bit words

The hash state that transcripts, Merkle trees and the proof-of-work share. It has no buffer of its
own bookkeeping: callers fill the input block, zero-pad it and say how many words of it count.
-/

namespace Airbender.Blake2s

abbrev Word := BitVec 32

def iv : Vector Word 8 :=
  #v[0x6A09E667, 0xBB67AE85, 0x3C6EF372, 0xA54FF53A, 0x510E527F, 0x9B05688C, 0x1F83D9AB,
    0x5BE0CD19]

/-- No tree mode, no key, 32 bytes of output. -/
def configuredIv : Vector Word 8 := iv.setIfInBounds 0 (0x6A09E667 ^^^ 0x01010000 ^^^ 32)

def sigmas : Vector (Vector (Fin 16) 16) 10 :=
  #v[#v[0, 1, 2, 3, 4, 5, 6, 7, 8, 9, 10, 11, 12, 13, 14, 15],
    #v[14, 10, 4, 8, 9, 15, 13, 6, 1, 12, 0, 2, 11, 7, 5, 3],
    #v[11, 8, 12, 0, 5, 2, 15, 13, 10, 14, 3, 6, 7, 1, 9, 4],
    #v[7, 9, 3, 1, 13, 12, 11, 14, 2, 6, 5, 10, 4, 0, 15, 8],
    #v[9, 0, 5, 7, 2, 4, 10, 15, 14, 1, 11, 12, 6, 8, 3, 13],
    #v[2, 12, 6, 10, 0, 11, 8, 3, 4, 13, 7, 5, 15, 14, 1, 9],
    #v[12, 5, 1, 15, 14, 13, 4, 10, 0, 7, 6, 3, 9, 2, 8, 11],
    #v[13, 11, 7, 14, 12, 1, 3, 9, 5, 0, 15, 4, 8, 6, 2, 10],
    #v[6, 15, 14, 9, 11, 3, 0, 8, 12, 2, 13, 7, 1, 4, 10, 5],
    #v[10, 2, 8, 4, 7, 6, 1, 5, 15, 11, 9, 14, 3, 12, 13, 0]]

def gFunction (v : Vector Word 16) (a b c d : Fin 16) (x y : Word) : Vector Word 16 :=
  let v := v.set a (v[a] + v[b] + x)
  let v := v.set d ((v[d] ^^^ v[a]).rotateRight 16)
  let v := v.set c (v[c] + v[d])
  let v := v.set b ((v[b] ^^^ v[c]).rotateRight 12)
  let v := v.set a (v[a] + v[b] + y)
  let v := v.set d ((v[d] ^^^ v[a]).rotateRight 8)
  let v := v.set c (v[c] + v[d])
  v.set b ((v[b] ^^^ v[c]).rotateRight 7)

/-- One round: the four columns, then the four diagonals. -/
def mixingFunction (state : Vector Word 16) (messageBlock : Vector Word 16)
    (sigma : Vector (Fin 16) 16) : Vector Word 16 :=
  let message := fun index : Fin 16 => messageBlock[sigma[index]]
  let state := gFunction state 0 4 8 12 (message 0) (message 1)
  let state := gFunction state 1 5 9 13 (message 2) (message 3)
  let state := gFunction state 2 6 10 14 (message 4) (message 5)
  let state := gFunction state 3 7 11 15 (message 6) (message 7)
  let state := gFunction state 0 5 10 15 (message 8) (message 9)
  let state := gFunction state 1 6 11 12 (message 10) (message 11)
  let state := gFunction state 2 7 8 13 (message 12) (message 13)
  gFunction state 3 4 9 14 (message 14) (message 15)

def numRounds (reducedRounds : Bool) : ℕ := if reducedRounds then 7 else 10

def roundFunction (reducedRounds : Bool) (state messageBlock : Vector Word 16) :
    Vector Word 16 :=
  (sigmas.toList.take (numRounds reducedRounds)).foldl
    (fun state sigma => mixingFunction state messageBlock sigma) state

structure Blake2sState where
  state : Vector Word 8
  inputBuffer : Vector Word 16
  /-- Bytes hashed so far; inputs are limited to less than 4 GiB. -/
  t : Word
deriving DecidableEq

namespace Blake2sState

def new : Blake2sState where
  state := configuredIv
  inputBuffer := Vector.replicate 16 0
  t := 0

/-- The input buffer keeps its contents. -/
def reset (hasher : Blake2sState) : Blake2sState := { hasher with state := configuredIv, t := 0 }

def readStateForOutput (hasher : Blake2sState) : Vector Word 8 := hasher.state

def extendedState (state : Vector Word 8) (t : Word) (lastRound : Bool) : Vector Word 16 :=
  state ++ iv.take 4 ++
    #v[t ^^^ iv[4], iv[5], (if lastRound then 0xffffffff else 0) ^^^ iv[6], iv[7]]

def fold (state : Vector Word 8) (extended : Vector Word 16) : Vector Word 8 :=
  Vector.ofFn fun index : Fin 8 => state[index] ^^^ extended[index.val] ^^^ extended[index.val + 8]

/-- `run_round_function`: compress the input buffer, of which `inputSizeWords` words count. -/
def runRoundFunction (reducedRounds : Bool) (hasher : Blake2sState) (inputSizeWords : ℕ)
    (lastRound : Bool) : Blake2sState :=
  let t := hasher.t + BitVec.ofNat 32 (inputSizeWords * 4)
  let extended := roundFunction reducedRounds (extendedState hasher.state t lastRound)
    hasher.inputBuffer
  { hasher with state := fold hasher.state extended, t := t }

def absorb (reducedRounds : Bool) (hasher : Blake2sState) (messageBlock : Vector Word 16) :
    Blake2sState :=
  let t := hasher.t + 64
  let extended := roundFunction reducedRounds (extendedState hasher.state t false) messageBlock
  { hasher with state := fold hasher.state extended, t := t }

/-- `absorb_final_block`: the digest of everything absorbed and `blockLen` words of a last block. -/
def absorbFinalBlock (reducedRounds : Bool) (hasher : Blake2sState)
    (messageBlock : Vector Word 16) (blockLen : ℕ) : Vector Word 8 :=
  let t := hasher.t + BitVec.ofNat 32 (blockLen * 4)
  fold hasher.state
    (roundFunction reducedRounds (extendedState hasher.state t true) messageBlock)

def compressTwoToOne (reducedRounds : Bool) (messageBlock : Vector Word 16) : Vector Word 8 :=
  fold configuredIv (roundFunction reducedRounds (extendedState configuredIv 64 true) messageBlock)

end Blake2sState

end Airbender.Blake2s
