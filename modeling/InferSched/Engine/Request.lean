import InferSched.Basic

/-! # Requests, results and configuration of an engine

The value types of `deterministic_engine.hpp`, the simulated clock, and the
strings the engine derives from a request: its result key, its prefix namespace
and its simulated output. Time is an unbounded number of nanoseconds.
-/

namespace InferSched.Engine

/-- The costs of an engine, and the spread of its jitter. -/
structure CostModelConfig where
  prefillFixed : ℤ := 10000
  prefillPerToken : ℤ := 1000
  decodeFixed : ℤ := 5000
  decodePerSequence : ℤ := 2000
  jitterBasisPoints : ℕ := 0
deriving DecidableEq, Repr

/-- The sizes and policies an engine is built with. -/
structure EngineConfig where
  kvBlocks : ℕ := 256
  kvBlockSizeTokens : ℕ := 16
  maxBatchSequences : ℕ := 8
  maxBatchTokens : ℕ := 4096
  maxPrefillSequencesPerIteration : ℕ := 1
  resultCacheEntries : ℕ := 128
  prefixCacheEntries : ℕ := 128
  seed : ℕ := 1
  costModel : CostModelConfig := {}
deriving DecidableEq, Repr

/-- A request as the engine receives it. -/
structure EngineRequest where
  requestId : Text
  modelRevision : Text := []
  tokenizerRevision : Text := []
  promptHash : Text := []
  promptBlockHashes : List Text := []
  promptTokens : ℕ := 0
  maxOutputTokens : ℕ := 0
  priority : ℕ := 0
  samplingSeed : ℕ := 0
  temperatureMicros : ℕ := 0
  topPMicros : ℕ := 1000000
  arrivalTime : ℤ := 0
deriving DecidableEq, Repr

/-- What the engine says of a request at its end. -/
structure EngineResult where
  requestId : Text
  output : Text := []
  completedAt : ℤ := 0
  firstTokenAt : ℤ := 0
  resultCacheHit : Bool := false
  prefixCacheHit : Bool := false
  succeeded : Bool := true
  failureReason : Text := []
deriving DecidableEq, Repr

/-- `FakeClock::Advance`: the clock never moves back. -/
def advance (now delta : ℤ) : ℤ :=
  if delta > 0 then now + delta else now

/-- The blocks that hold this many tokens. -/
def blocksForTokens (tokens blockSize : ℕ) : ℕ :=
  tokens / blockSize + if tokens % blockSize ≠ 0 then 1 else 0

/-- Append a part of a key with its length, so that parts cannot run together. -/
def appendPart (output value : Text) : Text :=
  output ++ decimal value.length ++ [':'] ++ value ++ ['|']

/-- `BuildResultCacheKey` on the parts of a request. -/
def resultKey (request : EngineRequest) : Text :=
  let key := appendPart [] request.modelRevision
  let key := appendPart key request.tokenizerRevision
  let key := appendPart key request.promptHash
  key ++ decimal request.maxOutputTokens ++ ['|'] ++ decimal request.temperatureMicros ++ ['|'] ++
    decimal request.topPMicros ++ ['|'] ++ decimal request.samplingSeed

/-- What has to agree for two requests to share prompt blocks. -/
def prefixNamespace (request : EngineRequest) : Text :=
  appendPart (appendPart [] request.modelRevision) request.tokenizerRevision

/-- The text that the engine makes up for a request. -/
def simulatedOutput (request : EngineRequest) : Text :=
  "simulated:".toList ++ request.modelRevision ++ [':'] ++ request.promptHash ++ [':'] ++
    decimal request.maxOutputTokens ++ [':'] ++ decimal request.samplingSeed

/-! ### Reading keys back -/

/-- A part is read back by its length, whatever letters it has. -/
theorem appendPart_inj {first second restFirst restSecond : Text}
    (same : appendPart [] first ++ restFirst = appendPart [] second ++ restSecond) :
    first = second ∧ restFirst = restSecond := by
  unfold appendPart at same
  simp only [List.nil_append, List.append_assoc, List.singleton_append] at same
  obtain ⟨lengths, texts⟩ := decimal_delimiter_inj (by decide) same
  obtain ⟨values, rests⟩ := List.append_inj texts lengths
  exact ⟨values, (List.cons.inj rests).2⟩

/-- What a key starts with does not change what is appended. -/
theorem appendPart_eq_append (output value : Text) :
    appendPart output value = output ++ appendPart [] value := by
  unfold appendPart
  simp only [List.nil_append, List.append_assoc]

/-- The result key from its first part on. -/
theorem resultKey_eq_append (request : EngineRequest) :
    resultKey request = appendPart [] request.modelRevision ++
      (appendPart [] request.tokenizerRevision ++ (appendPart [] request.promptHash ++
        (decimal request.maxOutputTokens ++ '|' :: (decimal request.temperatureMicros ++
          '|' :: (decimal request.topPMicros ++ '|' :: decimal request.samplingSeed))))) := by
  unfold resultKey
  dsimp only
  rw [appendPart_eq_append (appendPart (appendPart _ _) _), appendPart_eq_append (appendPart _ _)]
  simp only [List.append_assoc, List.cons_append, List.nil_append]

/-- The parts of a request that its result key is made of. -/
def keyParts (request : EngineRequest) : (Text × Text × Text) × ℕ × ℕ × ℕ × ℕ :=
  ((request.modelRevision, request.tokenizerRevision, request.promptHash),
    request.maxOutputTokens, request.temperatureMicros, request.topPMicros, request.samplingSeed)

/-- Two requests have the same result key only if they agree in all its parts. -/
theorem keyParts_eq_of_resultKey {first second : EngineRequest}
    (same : resultKey first = resultKey second) : keyParts first = keyParts second := by
  rw [resultKey_eq_append, resultKey_eq_append] at same
  obtain ⟨models, same⟩ := appendPart_inj same
  obtain ⟨tokenizers, same⟩ := appendPart_inj same
  obtain ⟨prompts, same⟩ := appendPart_inj same
  obtain ⟨outputs, same⟩ := decimal_delimiter_inj (by decide) same
  obtain ⟨temperatures, same⟩ := decimal_delimiter_inj (by decide) same
  obtain ⟨topPs, same⟩ := decimal_delimiter_inj (by decide) same
  unfold keyParts
  rw [models, tokenizers, prompts, outputs, temperatures, topPs, decimal_injective same]

/-- Requests with one result key have one output. -/
theorem simulatedOutput_eq_of_resultKey {first second : EngineRequest}
    (same : resultKey first = resultKey second) :
    simulatedOutput first = simulatedOutput second := by
  have parts := keyParts_eq_of_resultKey same
  unfold keyParts at parts
  simp only [Prod.mk.injEq] at parts
  obtain ⟨⟨models, _, prompts⟩, outputs, _, _, seeds⟩ := parts
  unfold simulatedOutput
  rw [models, prompts, outputs, seeds]

/-! ### Time -/

theorem le_advance (now delta : ℤ) : now ≤ advance now delta := by
  unfold advance
  split
  · omega
  · exact Int.le_refl now

/-! ### Blocks and tokens -/

/-- A number of blocks suffices exactly when its tokens do. -/
theorem blocksForTokens_le_iff {blockSize : ℕ} (positive : 0 < blockSize) (tokens blocks : ℕ) :
    blocksForTokens tokens blockSize ≤ blocks ↔ tokens ≤ blocks * blockSize := by
  have division := Nat.div_add_mod tokens blockSize
  have remainder := Nat.mod_lt tokens positive
  unfold blocksForTokens
  constructor
  · intro enough
    split at enough
    · calc tokens = blockSize * (tokens / blockSize) + tokens % blockSize := division.symm
        _ ≤ (tokens / blockSize + 1) * blockSize := by
          rw [Nat.add_mul, Nat.mul_comm]; omega
        _ ≤ blocks * blockSize := Nat.mul_le_mul_right _ enough
    · next aligned =>
        calc tokens = tokens / blockSize * blockSize := by rw [Nat.mul_comm]; omega
          _ ≤ blocks * blockSize := Nat.mul_le_mul_right _ enough
  · intro enough
    split
    · next partly =>
        apply Nat.succ_le_of_lt
        apply Nat.div_lt_of_lt_mul
        rw [Nat.mul_comm]
        refine lt_of_le_of_ne enough ?_
        intro equal
        exact partly (by rw [equal, Nat.mul_mod_left])
    · exact Nat.div_le_of_le_mul (by rw [Nat.mul_comm]; exact enough)

theorem blocksForTokens_mono {blockSize : ℕ} (positive : 0 < blockSize) {fewer more : ℕ}
    (le : fewer ≤ more) : blocksForTokens fewer blockSize ≤ blocksForTokens more blockSize :=
  (blocksForTokens_le_iff positive _ _).mpr
    (le.trans ((blocksForTokens_le_iff positive _ _).mp le_rfl))

/-- The block of a token position is among the blocks of the tokens up to it. -/
theorem div_lt_blocksForTokens {blockSize : ℕ} (positive : 0 < blockSize) (position : ℕ) :
    position / blockSize < blocksForTokens (position + 1) blockSize := by
  apply Nat.div_lt_of_lt_mul
  rw [Nat.mul_comm]
  exact (blocksForTokens_le_iff positive _ _).mp le_rfl

end InferSched.Engine
