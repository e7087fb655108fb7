import Mathlib

/-!
# Merkle trees by layers

A tree is a list of layers, each compressing neighbours of the one below. The siblings along the
way up from a leaf let a verifier recompute the node above it in any higher layer.
-/

namespace MerkleTree

set_option autoImplicit false

open Nat

variable {δ : Type} (compress : δ → δ → δ)

def nextLayer : List δ → List δ
  | left :: right :: rest => compress left right :: nextLayer rest
  | _ => []

/-- The `count` layers above a layer, lowest first. -/
def buildLayers (current : List δ) : ℕ → List (List δ)
  | 0 => []
  | count + 1 => nextLayer compress current :: buildLayers (nextLayer compress current) count

/-- The siblings met on the way up from `index` through the layers above `current`. -/
def siblings (current : List δ) : List (List δ) → ℕ → Option (List δ)
  | [], _ => some []
  | next :: above, index => do
      let sibling ← current[index ^^^ 1]?
      let path ← siblings next above (index >>> 1)
      some (sibling :: path)

/-- Recompute a node from a hash below it and the siblings in between. -/
def climb (hash : δ) (index : ℕ) : List δ → δ
  | [] => hash
  | sibling :: path =>
    climb (if index % 2 = 1 then compress sibling hash else compress hash sibling)
      (index >>> 1) path

def children (hash : δ) (index : ℕ) (sibling : δ) : δ × δ :=
  if index % 2 = 1 then (sibling, hash) else (hash, sibling)

/-- The children of the nodes on the way up. -/
def climbPairs (hash : δ) (index : ℕ) : List δ → List (δ × δ)
  | [] => []
  | sibling :: path =>
    let pair := children hash index sibling
    pair :: climbPairs (compress pair.1 pair.2) (index >>> 1) path

/-- At some level, different children compress to one node. -/
def Collision (first second : List (δ × δ)) : Prop :=
  ∃ (level : ℕ) (left right : δ × δ), first[level]? = some left ∧
    second[level]? = some right ∧ left ≠ right ∧
    Function.uncurry compress left = Function.uncurry compress right

variable {compress}

theorem length_nextLayer (layer : List δ) :
    (nextLayer compress layer).length = layer.length / 2 := by
  induction layer using nextLayer.induct with
  | case1 left right rest ih =>
    simp only [nextLayer, List.length_cons, ih]
    omega
  | case2 layer short =>
    match layer, short with
    | [], _ => simp [nextLayer]
    | [_], _ => simp [nextLayer]
    | left :: right :: rest, short => exact absurd rfl (short left right rest)

theorem nextLayer_getElem? (layer : List δ) (index : ℕ) {left right : δ}
    (isLeft : layer[2 * index]? = some left) (isRight : layer[2 * index + 1]? = some right) :
    (nextLayer compress layer)[index]? = some (compress left right) := by
  induction layer using nextLayer.induct generalizing index with
  | case1 first second rest ih =>
    cases index with
    | zero =>
      cases isLeft
      cases isRight
      simp [nextLayer]
    | succ index =>
      rw [nextLayer, List.getElem?_cons_succ]
      exact ih index isLeft isRight
  | case2 layer short =>
    match layer, short with
    | [], _ => simp at isLeft
    | [_], _ => simp at isRight
    | first :: second :: rest, short => exact absurd rfl (short first second rest)

theorem nextLayer_of_sibling {layer : List δ} {index : ℕ} {hash sibling : δ}
    (here : layer[index]? = some hash) (beside : layer[index ^^^ 1]? = some sibling) :
    (nextLayer compress layer)[index >>> 1]? =
      some (if index % 2 = 1 then compress sibling hash else compress hash sibling) := by
  have half : index >>> 1 = index / 2 := shiftRight_eq_div_pow index 1
  rw [half]
  rcases mod_two_eq_zero_or_one index with even | odd
  · have other : index ^^^ 1 = 2 * (index / 2) + 1 := by
      rw [xor_one_of_even (even_iff.mpr even)]
      omega
    have same : index = 2 * (index / 2) := by omega
    rw [if_neg (by omega)]
    exact nextLayer_getElem? layer _ (by rw [← same]; exact here) (by rw [← other]; exact beside)
  · have other : index ^^^ 1 = 2 * (index / 2) := by
      rw [xor_one_of_odd (odd_iff.mpr odd)]
      omega
    have same : index = 2 * (index / 2) + 1 := by omega
    rw [if_pos odd]
    exact nextLayer_getElem? layer _ (by rw [← other]; exact beside) (by rw [← same]; exact here)

theorem sibling_lt {index half : ℕ} (bound : index < 2 * half) : index ^^^ 1 < 2 * half := by
  rcases even_or_odd index with even | odd
  · rw [xor_one_of_even even]
    obtain ⟨double, rfl⟩ := even
    omega
  · rw [xor_one_of_odd odd]
    omega

theorem climb_siblings (count top : ℕ) {current : List δ} {index : ℕ} {hash : δ}
    (size : current.length = 2 ^ count * top) (here : current[index]? = some hash) :
    ∃ path, siblings current (buildLayers compress current count) index = some path ∧
      path.length = count ∧
      ((current :: buildLayers compress current count).getLast (List.cons_ne_nil _ _))[
        index >>> count]? = some (climb compress hash index path) := by
  induction count generalizing current index hash with
  | zero => exact ⟨[], rfl, rfl, here⟩
  | succ count ih =>
    have double : current.length = 2 * (2 ^ count * top) := by
      rw [size]
      ring
    have bound : index < 2 * (2 ^ count * top) := by
      rw [← double]
      exact (List.getElem?_eq_some_iff.mp here).1
    have siblingBound : index ^^^ 1 < current.length := by
      rw [double]
      exact sibling_lt bound
    have beside := List.getElem?_eq_getElem siblingBound
    have above : (nextLayer compress current)[index >>> 1]? = some (if index % 2 = 1 then
        compress current[index ^^^ 1] hash else compress hash current[index ^^^ 1]) :=
      nextLayer_of_sibling here beside
    have nextSize : (nextLayer compress current).length = 2 ^ count * top := by
      rw [length_nextLayer, double]
      omega
    obtain ⟨path, found, length, reached⟩ := ih nextSize above
    refine ⟨current[index ^^^ 1] :: path, ?_, by rw [List.length_cons, length], ?_⟩
    · simp [buildLayers, siblings, beside, found]
    · have shifts : index >>> (count + 1) = index >>> 1 >>> count := by
        rw [Nat.add_comm, shiftRight_add]
      rw [shifts]
      exact reached

theorem climb_cons (hash sibling : δ) (index : ℕ) (path : List δ) :
    climb compress hash index (sibling :: path) =
      climb compress (Function.uncurry compress (children hash index sibling)) (index >>> 1)
        path := by
  by_cases odd : index % 2 = 1
  · simp [climb, children, odd]
  · simp [climb, children, odd]

theorem children_ne {first second : δ} (different : first ≠ second) (index : ℕ)
    (sibling other : δ) : children first index sibling ≠ children second index other := by
  intro same
  unfold children at same
  split_ifs at same
  · exact different (congrArg Prod.snd same)
  · exact different (congrArg Prod.fst same)

/-- Ways from different hashes to one node meet in a collision. -/
theorem collision_of_climb_eq {first second : δ} {index : ℕ} {path other : List δ}
    (lengths : path.length = other.length) (different : first ≠ second)
    (same : climb compress first index path = climb compress second index other) :
    Collision compress (climbPairs compress first index path)
      (climbPairs compress second index other) := by
  induction path generalizing first second index other with
  | nil =>
    rw [List.eq_nil_of_length_eq_zero lengths.symm] at same
    exact absurd same different
  | cons sibling path ih =>
    cases other with
    | nil => contradiction
    | cons otherSibling other =>
      rw [climb_cons, climb_cons] at same
      by_cases collides : Function.uncurry compress (children first index sibling) =
          Function.uncurry compress (children second index otherSibling)
      · exact ⟨0, _, _, rfl, rfl, children_ne different _ _ _, collides⟩
      · have above := ih (Nat.succ.inj lengths) collides same
        exact above.imp' Nat.succ fun _ found => found

end MerkleTree
