import Airbender.Verifier.FullStatement

/-!
# Chains of recursion layers

Programs that verified each other are recorded as a hash chain over their end parameters. The
verifier extends the chain from a preimage that the prover supplies, the prover keeps the preimage,
and `compute_chain_encoding` hashes a list. Repetitions are recorded once.
-/

namespace Airbender.Recursion

open Blake2s Transcript Verifier Vector
open List hiding Vector getElem_append_left getElem_append_right

def createInitialChainEncodingEncoding (baseLayerEndParams : Seed) : Vector Word 16 × Seed :=
  let preimage : Vector Word 16 := (Vector.replicate 8 0 : Vector Word 8) ++ baseLayerEndParams
  let newChain := (Blake2sBufferingTranscript.new.absorb preimage.toList).finalizeReset.1
  (preimage, newChain)

def continueChainEncoding (previousChainHash : Seed) (previousChainPreimage : Vector Word 16)
    (verifierStepEndParameters : Seed) : Vector Word 16 × Seed :=
  if previousChainPreimage.toList.drop 8 = verifierStepEndParameters.toList then
    (previousChainPreimage, previousChainHash)
  else
    let preimage : Vector Word 16 := previousChainHash ++ verifierStepEndParameters
    let newChain := (Blake2sBufferingTranscript.new.absorb preimage.toList).finalizeReset.1
    (preimage, newChain)

/-- The loop of `compute_chain_encoding`; `before` is the element in front of the list. -/
def computeChainEncodingLoop (hasher : Blake2sBufferingTranscript) (previous before : Seed) :
    List Seed → Seed
  | [] => previous
  | current :: rest =>
    if current ≠ before then
      let (previous, hasher) :=
        ((hasher.absorb previous.toList).absorb current.toList).finalizeReset
      computeChainEncodingLoop hasher previous current rest
    else computeChainEncodingLoop hasher previous current rest

/-- `compute_chain_encoding`, which indexes the first element. -/
def computeChainEncoding : List Seed → Option Seed
  | [] => none
  | first :: rest => some (computeChainEncodingLoop .new first first rest)

/-- One layer of recursion: its end parameters, the hasher they were read from and the words that
the prover supplies next. -/
structure RecursionLayer where
  endParams : Seed
  resultHasher : Blake2sBufferingTranscript
  source : Source

/-- Final registers of a program that returns `chain` in `x18` to `x25`, with their timestamps. -/
def chainRegisters (chain : List Word) : List Word :=
  (List.range 96).map fun index =>
    if index % 3 = 0 ∧ 18 ≤ index / 3 then chain.getD (index / 3 - 18) 0 else 0

def verifyLayer (baseLayer : Bool) (chain : List Word) (layer : RecursionLayer) :
    Option (List Word) :=
  ((continueChain blake2s baseLayer (chainRegisters chain) layer.endParams
    layer.resultHasher.finalizeReset.2).run layer.source).map Prod.fst

def verifierChain (base : RecursionLayer) (layers : List RecursionLayer) : Option (List Word) := do
  let chain ← verifyLayer true (List.replicate 8 0) base
  layers.foldlM (verifyLayer false) chain

def link (chain element : Seed) : Seed :=
  Blake2sState.compressTwoToOne useReducedBlake2Rounds (chain ++ element : Vector Word 16)

/-- The elements after `before` that differ from the one in front of them. -/
def withoutRepetitions (before : Seed) (elements : List Seed) : List Seed :=
  (elements.destutter' (· ≠ ·) before).tail

theorem destutter_head (current : Seed) (rest : List Seed) :
    ∃ kept, rest.destutter' (· ≠ ·) current = current :: kept := by
  induction rest with
  | nil => exact ⟨[], rfl⟩
  | cons next rest ih =>
    by_cases different : current ≠ next
    · exact ⟨_, destutter'_cons_pos rest different⟩
    · rw [destutter'_cons_neg rest different]
      exact ih

theorem withoutRepetitions_cons (before current : Seed) (rest : List Seed) :
    withoutRepetitions before (current :: rest) =
      if current ≠ before then current :: withoutRepetitions current rest
      else withoutRepetitions current rest := by
  split
  case isTrue different =>
    obtain ⟨kept, cons⟩ := destutter_head current rest
    rw [withoutRepetitions, destutter'_cons_pos _ different.symm, tail_cons, cons,
      withoutRepetitions, cons, tail_cons]
  case isFalse same =>
    rw [not_not.mp same, withoutRepetitions, destutter'_cons_neg _ (fun differ => differ rfl)]
    rfl

/-- The chain over elements that follow `before`. -/
def chainAfter (chain before : Seed) (elements : List Seed) : Seed :=
  (withoutRepetitions before elements).foldl link chain

variable {before : Seed} {transcript : Blake2sBufferingTranscript}
  {encoding : Vector Word 16 × Seed}

theorem chainAfter_new (chain : Seed) {current : Seed} (rest : List Seed)
    (different : current ≠ before) :
    chainAfter chain before (current :: rest) = chainAfter (link chain current) current rest := by
  rw [chainAfter, withoutRepetitions_cons, if_pos different]
  rfl

theorem chainAfter_repeated (chain before : Seed) (rest : List Seed) :
    chainAfter chain before (before :: rest) = chainAfter chain before rest := by
  rw [chainAfter, withoutRepetitions_cons, if_neg (fun differ => differ rfl)]
  rfl

/-- A transcript that has absorbed nothing since it was created or reset. The buffer may hold
words of an earlier input. -/
structure Ready (transcript : Blake2sBufferingTranscript) : Prop where
  offset : transcript.bufferOffset = 0
  state : transcript.state.state = configuredIv
  counter : transcript.state.t = 0

theorem ready_new : Ready Blake2sBufferingTranscript.new := ⟨rfl, rfl, rfl⟩

theorem ready_finalizeReset (transcript : Blake2sBufferingTranscript) :
    Ready transcript.finalizeReset.2 := ⟨rfl, rfl, rfl⟩

theorem copyWords_block (buffer block : Vector Word 16) :
    copyWords buffer 0 block.toList = block := by
  refine Vector.ext fun index bound => ?_
  rw [copyWords, getElem_ofFn, if_pos (Nat.zero_le _)]
  simp [getD_eq_getElem?_getD, bound]

theorem copyWords_halves (buffer : Vector Word 16) (chain element : Seed) :
    copyWords (copyWords buffer 0 chain.toList) 8 element.toList = chain ++ element := by
  refine Vector.ext fun index bound => ?_
  simp only [copyWords, getElem_ofFn, Vector.get_eq_getElem]
  by_cases low : index < 8
  · rw [if_neg (by omega), if_pos (Nat.zero_le _), getElem_append_left low]
    simp [getD_eq_getElem?_getD, low]
  · have inside : index - 8 < 8 := by omega
    rw [if_pos (by omega), getElem_append_right bound (by omega)]
    simp [getD_eq_getElem?_getD, inside]

theorem zeroRest_full (block : Vector Word 16) : zeroRest block 16 = block := by
  refine Vector.ext fun index bound => ?_
  rw [zeroRest, getElem_ofFn, if_neg (by omega)]
  rfl

theorem absorb_fitting (transcript : Blake2sBufferingTranscript) {values : List Word}
    (nonempty : values ≠ []) (fits : values.length ≤ 16 - transcript.bufferOffset) :
    transcript.absorb values =
      ⟨{ transcript.state with
          inputBuffer := copyWords transcript.state.inputBuffer transcript.bufferOffset values },
        transcript.bufferOffset + values.length⟩ := by
  have notEmpty : values.isEmpty = false := isEmpty_eq_false_iff.mpr nonempty
  simp [Blake2sBufferingTranscript.absorb, Blake2sBufferingTranscript.absorbLoop, notEmpty,
    min_eq_left fits]

theorem finalizeReset_block (block : Vector Word 16) (offset : transcript.bufferOffset = 16)
    (state : transcript.state.state = configuredIv) (counter : transcript.state.t = 0)
    (buffer : transcript.state.inputBuffer = block) :
    transcript.finalizeReset.1 =
      Blake2sState.compressTwoToOne useReducedBlake2Rounds block := by
  simp only [Blake2sBufferingTranscript.finalizeReset, offset, buffer, zeroRest_full,
    Blake2sState.readStateForOutput, Blake2sState.runRoundFunction, state, counter]
  rfl

theorem hash_block (ready : Ready transcript) (block : Vector Word 16) :
    (transcript.absorb block.toList).finalizeReset.1 =
      Blake2sState.compressTwoToOne useReducedBlake2Rounds block := by
  rw [absorb_fitting transcript (by simp) (by simp [ready.offset])]
  refine finalizeReset_block block ?_ ready.state ready.counter ?_
  · simp [ready.offset]
  · rw [ready.offset]
    exact copyWords_block _ block

theorem hash_two_halves (ready : Ready transcript) (chain element : Seed) :
    ((transcript.absorb chain.toList).absorb element.toList).finalizeReset.1 =
      link chain element := by
  rw [absorb_fitting transcript (by simp) (by simp [ready.offset]),
    absorb_fitting _ (by simp) (by simp [ready.offset])]
  refine finalizeReset_block _ ?_ ready.state ready.counter ?_
  · simp [ready.offset]
  · rw [ready.offset, length_toList]
    exact copyWords_halves _ chain element

theorem toList_drop_append (chain element : Seed) :
    (chain ++ element : Vector Word 16).toList.drop 8 = element.toList := by
  rw [toList_append]
  exact drop_left' chain.length_toList

/-- A preimage of a chain that ends with `before`. -/
structure Encodes (encoding : Vector Word 16 × Seed) (before : Seed) : Prop where
  last : encoding.1.toList.drop 8 = before.toList
  hashed : Blake2sState.compressTwoToOne useReducedBlake2Rounds encoding.1 = encoding.2

theorem createInitial_encodes (element : Seed) :
    Encodes (createInitialChainEncodingEncoding element) element where
  last := toList_drop_append _ element
  hashed := (hash_block ready_new _).symm

theorem createInitial_snd (element : Seed) :
    (createInitialChainEncodingEncoding element).2 = link (Vector.replicate 8 0) element :=
  hash_block ready_new _

variable (encodes : Encodes encoding before)

include encodes

theorem continueChainEncoding_repeated :
    continueChainEncoding encoding.2 encoding.1 before = encoding := by
  rw [continueChainEncoding, if_pos encodes.last]

theorem continueChainEncoding_new {element : Seed} (different : element ≠ before) :
    continueChainEncoding encoding.2 encoding.1 element =
      (encoding.2 ++ element, link encoding.2 element) := by
  have notLast : encoding.1.toList.drop 8 ≠ element.toList := by
    rw [encodes.last]
    exact fun same => different (toList_inj.mp same).symm
  rw [continueChainEncoding, if_neg notLast]
  exact Prod.ext rfl (hash_block ready_new _)

theorem continueChainEncoding_encodes (element : Seed) :
    Encodes (continueChainEncoding encoding.2 encoding.1 element) element := by
  by_cases same : element = before
  · rw [same, continueChainEncoding_repeated encodes]
    exact encodes
  · rw [continueChainEncoding_new encodes same]
    exact ⟨toList_drop_append _ element, rfl⟩

omit encodes

/-- The encodings of the prover before every element of a list and after the last one. -/
def continueAll (encoding : Vector Word 16 × Seed) (elements : List Seed) :
    Vector Word 16 × Seed :=
  elements.foldl (fun encoding element => continueChainEncoding encoding.2 encoding.1 element)
    encoding

include encodes

theorem continueAll_eq (elements : List Seed) :
    (continueAll encoding elements).2 = chainAfter encoding.2 before elements := by
  induction elements generalizing encoding before with
  | nil => rfl
  | cons element rest ih =>
    refine (ih (continueChainEncoding_encodes encodes element)).trans ?_
    by_cases same : element = before
    · rw [same, continueChainEncoding_repeated encodes, chainAfter_repeated]
    · rw [continueChainEncoding_new encodes same, chainAfter_new _ _ same]

omit encodes

theorem computeChainEncodingLoop_eq {hasher : Blake2sBufferingTranscript} (ready : Ready hasher)
    (previous before : Seed) (elements : List Seed) :
    computeChainEncodingLoop hasher previous before elements =
      chainAfter previous before elements := by
  induction elements generalizing hasher previous before with
  | nil => rfl
  | cons element rest ih =>
    by_cases same : element = before
    · rw [computeChainEncodingLoop, if_neg (fun differ => differ same), same,
        chainAfter_repeated, ih ready]
    · rw [computeChainEncodingLoop, if_pos same, chainAfter_new _ _ same,
        ← hash_two_halves ready previous element]
      exact ih (ready_finalizeReset _) _ _

theorem auxRegisters_chainRegisters (chain : Seed) :
    ((List.range 8).map fun index => (chainRegisters chain.toList).getD ((18 + index) * 3) 0) =
      chain.toList := by
  obtain ⟨⟨words⟩, length⟩ := chain
  simp only [chainRegisters]
  match words, length with
  | [_, _, _, _, _, _, _, _], _ => rfl

theorem verifyLayer_base (layer : RecursionLayer) :
    verifyLayer true (List.replicate 8 0) layer =
      some (link (Vector.replicate 8 0) layer.endParams).toList := by
  have zeros : List.replicate 8 (0 : Word) = (Vector.replicate 8 0 : Seed).toList := rfl
  have hashed := hash_block (ready_finalizeReset layer.resultHasher)
    ((Vector.replicate 8 0 : Seed) ++ layer.endParams)
  rw [toList_append] at hashed
  rw [zeros]
  simp only [verifyLayer, continueChain, auxRegisters_chainRegisters, if_true]
  refine congrArg (fun chain : Seed => some chain.toList) ?_
  exact hashed

theorem verifyLayer_recursion (chain : Seed) (layer : RecursionLayer) (block : Vector Word 16)
    (rest : Source) (supplied : layer.source = block.toList ++ rest) :
    verifyLayer false chain.toList layer =
      if Blake2sState.compressTwoToOne useReducedBlake2Rounds block = chain then
        if block.toList.drop 8 = layer.endParams.toList then some chain.toList
        else some (link chain layer.endParams).toList
      else none := by
  have read := readWords_append block.toList rest
  rw [length_toList, ← supplied] at read
  have hashed := hash_block (ready_finalizeReset layer.resultHasher) block
  have linked := hash_block (ready_finalizeReset
    (layer.resultHasher.finalizeReset.2.absorb block.toList)) (chain ++ layer.endParams)
  rw [toList_append] at linked
  simp only [verifyLayer, continueChain, auxRegisters_chainRegisters, Bool.false_eq_true, if_false,
    run_bind_of_some read]
  change Option.map Prod.fst ((check ((layer.resultHasher.finalizeReset.2.absorb
      block.toList).finalizeReset.1.toList == chain.toList) >>= fun _ =>
    if block.toList.drop 8 == layer.endParams.toList then pure chain.toList
    else pure ((layer.resultHasher.finalizeReset.2.absorb block.toList).finalizeReset.2.absorb
      (chain.toList ++ layer.endParams.toList)).finalizeReset.1.toList).run rest) = _
  rw [hashed, linked]
  by_cases same : Blake2sState.compressTwoToOne useReducedBlake2Rounds block = chain
  · rw [if_pos same, same, beq_self_eq_true]
    by_cases last : block.toList.drop 8 = layer.endParams.toList
    · rw [if_pos last, if_pos (beq_iff_eq.mpr last)]
      rfl
    · rw [if_neg last, if_neg (fun equal => last (beq_iff_eq.mp equal))]
      rfl
  · have different : (Blake2sState.compressTwoToOne useReducedBlake2Rounds block).toList ≠
        chain.toList := fun equal => same (toList_inj.mp equal)
    rw [if_neg same, beq_false_of_ne different]
    rfl

theorem verifyLayer_supplied {chain : Seed} {layer : RecursionLayer} {next : List Word}
    (succeeded : verifyLayer false chain.toList layer = some next) :
    ∃ (block : Vector Word 16) (rest : Source), layer.source = block.toList ++ rest := by
  rw [verifyLayer, Option.map_eq_some_iff] at succeeded
  obtain ⟨⟨_, final⟩, run, -⟩ := succeeded
  simp only [continueChain, Bool.false_eq_true, if_false] at run
  obtain ⟨words, rest, read, -⟩ := bind_eq_some run
  obtain ⟨length, split⟩ := readWords_eq_some read
  exact ⟨⟨words.toArray, by simpa using length⟩, rest, by simpa using split⟩

def preimagesBefore (encoding : Vector Word 16 × Seed) : List Seed → List (Vector Word 16)
  | [] => []
  | element :: rest =>
    encoding.1 :: preimagesBefore (continueChainEncoding encoding.2 encoding.1 element) rest

def suppliedPreimages (layers : List RecursionLayer) : List (List Word) :=
  layers.map fun layer => layer.source.take 16

include encodes

theorem verifyLayer_follows (layer : RecursionLayer)
    {rest : Source} (supplied : layer.source = encoding.1.toList ++ rest) :
    verifyLayer false encoding.2.toList layer =
      some (continueChainEncoding encoding.2 encoding.1 layer.endParams).2.toList := by
  rw [verifyLayer_recursion _ layer _ _ supplied, if_pos encodes.hashed, encodes.last]
  by_cases same : layer.endParams = before
  · rw [same, if_pos rfl, continueChainEncoding_repeated encodes]
  · rw [if_neg (fun equal => same (toList_inj.mp equal).symm),
      continueChainEncoding_new encodes same]

theorem layers_complete (layers : List RecursionLayer)
    (supplied : suppliedPreimages layers =
      (preimagesBefore encoding (layers.map RecursionLayer.endParams)).map Vector.toList) :
    layers.foldlM (verifyLayer false) encoding.2.toList =
      some (continueAll encoding (layers.map RecursionLayer.endParams)).2.toList := by
  induction layers generalizing encoding before with
  | nil => rfl
  | cons layer rest ih =>
    simp only [suppliedPreimages, map_cons, preimagesBefore, List.cons.injEq] at supplied
    have split : layer.source = encoding.1.toList ++ layer.source.drop 16 := by
      rw [← supplied.1, take_append_drop]
    rw [foldlM_cons, verifyLayer_follows encodes layer split]
    exact ih (continueChainEncoding_encodes encodes layer.endParams) supplied.2

omit encodes

theorem layers_sound {blocks : Set (Vector Word 16)}
    (injective : Set.InjOn (Blake2sState.compressTwoToOne useReducedBlake2Rounds) blocks)
    (encodes : Encodes encoding before) (layers : List RecursionLayer) {chain : List Word}
    (supplied : ∀ block : Vector Word 16, block.toList ∈ suppliedPreimages layers →
      block ∈ blocks)
    (held : ∀ block ∈ preimagesBefore encoding (layers.map RecursionLayer.endParams),
      block ∈ blocks)
    (accepted : layers.foldlM (verifyLayer false) encoding.2.toList = some chain) :
    chain = (continueAll encoding (layers.map RecursionLayer.endParams)).2.toList := by
  induction layers generalizing encoding before with
  | nil => exact (Option.some.inj accepted).symm
  | cons layer rest ih =>
    rw [foldlM_cons] at accepted
    obtain ⟨next, verified, continued⟩ := Option.bind_eq_some_iff.mp accepted
    obtain ⟨block, after, split⟩ := verifyLayer_supplied verified
    have matching : Blake2sState.compressTwoToOne useReducedBlake2Rounds block = encoding.2 := by
      by_contra different
      rw [verifyLayer_recursion _ layer block after split, if_neg different] at verified
      cases verified
    have first : block.toList ∈ suppliedPreimages (layer :: rest) := by
      rw [suppliedPreimages, map_cons, split, take_left' block.length_toList]
      exact mem_cons_self
    have same : block = encoding.1 :=
      injective (supplied block first) (held _ mem_cons_self)
        (matching.trans encodes.hashed.symm)
    rw [same] at split
    rw [verifyLayer_follows encodes layer split] at verified
    cases verified
    exact ih (continueChainEncoding_encodes encodes layer.endParams)
      (fun other member => supplied other (mem_cons_of_mem _ member))
      (fun other member => held other (mem_cons_of_mem _ member)) continued

/-- The blocks whose hashes a run of the verifier compares. -/
def comparedPreimages (base : RecursionLayer) (layers : List RecursionLayer) :
    Set (Vector Word 16) :=
  { block | block.toList ∈ suppliedPreimages layers ∨
      block ∈ preimagesBefore (createInitialChainEncodingEncoding base.endParams)
        (layers.map RecursionLayer.endParams) }

/-- All three versions record the end parameters without consecutive repetitions. The verifier
depends on preimages from outside; it finds the same chain if the hash has no collision among
those and the ones the prover holds, and it accepts the latter. -/
theorem chain_encodings_agree (base : RecursionLayer) (layers : List RecursionLayer)
    (nonzero : base.endParams ≠ Vector.replicate 8 0) :
    let elements := layers.map RecursionLayer.endParams
    let initial := createInitialChainEncodingEncoding base.endParams
    let encoding := (continueAll initial elements).2
    encoding = (withoutRepetitions (Vector.replicate 8 0) (base.endParams :: elements)).foldl link
        (Vector.replicate 8 0) ∧
      computeChainEncoding (Vector.replicate 8 0 :: base.endParams :: elements) = some encoding ∧
      (Set.InjOn (Blake2sState.compressTwoToOne useReducedBlake2Rounds)
          (comparedPreimages base layers) →
        ∀ chain, verifierChain base layers = some chain → chain = encoding.toList) ∧
      (suppliedPreimages layers = (preimagesBefore initial elements).map Vector.toList →
        verifierChain base layers = some encoding.toList) := by
  intro elements initial encoding
  have encodes := createInitial_encodes base.endParams
  have start : verifierChain base layers =
      layers.foldlM (verifyLayer false) initial.2.toList := by
    rw [verifierChain, verifyLayer_base, ← createInitial_snd]
    rfl
  have folded : encoding = chainAfter (Vector.replicate 8 0) (Vector.replicate 8 0)
      (base.endParams :: elements) := by
    rw [chainAfter_new _ _ nonzero, ← createInitial_snd]
    exact continueAll_eq encodes elements
  refine ⟨folded, ?_, ?_, ?_⟩
  · rw [computeChainEncoding, computeChainEncodingLoop_eq ready_new, folded]
  · intro injective chain accepted
    rw [start] at accepted
    exact layers_sound injective encodes layers (fun _ => Or.inl) (fun _ => Or.inr) accepted
  · intro supplied
    rw [start]
    exact layers_complete encodes layers supplied

section

def sampleLayer (endParams : Word) : RecursionLayer where
  endParams := Vector.replicate 8 endParams
  resultHasher := .new
  source := (createInitialChainEncodingEncoding (Vector.replicate 8 1)).1.toList

def sampleLayers : List RecursionLayer := [sampleLayer 1, sampleLayer 2]

theorem sampleLayers_preimages :
    preimagesBefore (createInitialChainEncodingEncoding (sampleLayer 1).endParams)
        (sampleLayers.map RecursionLayer.endParams) =
      List.replicate 2 (createInitialChainEncodingEncoding (Vector.replicate 8 1)).1 := by
  have repeated := continueChainEncoding_repeated (createInitial_encodes (sampleLayer 1).endParams)
  simp only [sampleLayers, map_cons, map_nil, preimagesBefore, repeated]
  rfl

theorem chain_encodings_agree_sample :
    let recorded := (computeChainEncoding [Vector.replicate 8 0, Vector.replicate 8 1,
      Vector.replicate 8 1, Vector.replicate 8 2]).map Vector.toList
    verifierChain (sampleLayer 1) sampleLayers = recorded ∧
      ∀ chain, verifierChain (sampleLayer 1) sampleLayers = some chain →
        some chain = recorded := by
  have nonzero : (sampleLayer 1).endParams ≠ Vector.replicate 8 0 := by decide
  have supplied : suppliedPreimages sampleLayers = (List.replicate 2
      (createInitialChainEncodingEncoding (Vector.replicate 8 1)).1).map Vector.toList := rfl
  have onlyBlock : ∀ block ∈ comparedPreimages (sampleLayer 1) sampleLayers,
      block = (createInitialChainEncodingEncoding (Vector.replicate 8 1)).1 := by
    rintro block (member | member)
    · rw [supplied, List.map_replicate, List.mem_replicate] at member
      exact toList_inj.mp member.2
    · rw [sampleLayers_preimages, List.mem_replicate] at member
      exact member.2
  have injective : Set.InjOn (Blake2sState.compressTwoToOne useReducedBlake2Rounds)
      (comparedPreimages (sampleLayer 1) sampleLayers) :=
    fun left leftIn right rightIn _ => (onlyBlock left leftIn).trans (onlyBlock right rightIn).symm
  obtain ⟨-, computed, sound, complete⟩ :=
    chain_encodings_agree (sampleLayer 1) sampleLayers nonzero
  have recorded := congrArg (Option.map Vector.toList) computed
  refine ⟨(complete ?_).trans recorded.symm, fun chain accepted => ?_⟩
  · rw [supplied, sampleLayers_preimages]
  · rw [sound injective chain accepted]
    exact recorded.symm

end

end Airbender.Recursion
