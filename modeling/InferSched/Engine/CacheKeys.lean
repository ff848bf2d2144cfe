import InferSched.Engine.DeterministicEngine
import InferSched.Engine.PrefixAgreement

/-! # The keys of the caches

`BuildResultCacheKey` (`result_cache_key.cpp`), and the keys under which the engines pin
prompts. A key gives back the parts it was made of, whatever letters they have, and the two
kinds of prefix keys never meet.
-/

namespace InferSched.Engine

/-! ### Result keys -/

structure ResultCacheKeyParts where
  modelRevision : Text
  tokenizerRevision : Text
  promptHash : Text
  maxOutputTokens : ℕ := 0
  temperatureMicros : ℕ := 0
  topPMicros : ℕ := 0
  seed : ℕ := 0
deriving DecidableEq, Repr

def buildResultCacheKey (parts : ResultCacheKeyParts) : Text :=
  let key := appendPart [] parts.modelRevision
  let key := appendPart key parts.tokenizerRevision
  let key := appendPart key parts.promptHash
  let key := key ++ decimal parts.maxOutputTokens ++ ['|']
  let key := key ++ decimal parts.temperatureMicros ++ ['|']
  let key := key ++ decimal parts.topPMicros ++ ['|']
  key ++ decimal parts.seed

/-- The parts that the engines take from a request. -/
def resultCacheKeyParts (request : EngineRequest) : ResultCacheKeyParts where
  modelRevision := request.modelRevision
  tokenizerRevision := request.tokenizerRevision
  promptHash := request.promptHash
  maxOutputTokens := request.maxOutputTokens
  temperatureMicros := request.temperatureMicros
  topPMicros := request.topPMicros
  seed := request.samplingSeed

/-- The key of a request is the key of its parts. -/
theorem resultKey_eq_build (request : EngineRequest) :
    resultKey request = buildResultCacheKey (resultCacheKeyParts request) := by
  unfold resultKey buildResultCacheKey resultCacheKeyParts
  simp only [List.append_assoc]

/-- A request with given parts. -/
def ResultCacheKeyParts.request (parts : ResultCacheKeyParts) : EngineRequest where
  requestId := []
  modelRevision := parts.modelRevision
  tokenizerRevision := parts.tokenizerRevision
  promptHash := parts.promptHash
  maxOutputTokens := parts.maxOutputTokens
  temperatureMicros := parts.temperatureMicros
  topPMicros := parts.topPMicros
  samplingSeed := parts.seed

/-- **Result keys are unambiguous.** Two lists of parts with one key are equal. -/
theorem parts_eq_of_key : Function.Injective buildResultCacheKey := by
  intro first second same
  have keys : resultKey first.request = resultKey second.request := by
    rw [resultKey_eq_build, resultKey_eq_build]
    exact same
  have parts := keyParts_eq_of_resultKey keys
  simp only [keyParts, ResultCacheKeyParts.request, Prod.mk.injEq] at parts
  obtain ⟨⟨models, tokenizers, prompts⟩, outputs, temperatures, topPs, seeds⟩ := parts
  cases first
  cases second
  cases models
  cases tokenizers
  cases prompts
  cases outputs
  cases temperatures
  cases topPs
  cases seeds
  rfl

/-- Parts that run together without their lengths. -/
theorem parts_eq_of_key_boundary :
    buildResultCacheKey ⟨"a|1:b".toList, [], [], 1, 2, 3, 4⟩ ≠
      buildResultCacheKey ⟨['a'], ['b'], [], 1, 2, 3, 4⟩ := by
  intro same
  have parts := parts_eq_of_key same
  cases parts

/-! ### Prefix keys -/

/-- The prefix key from its first part on. -/
theorem prefixKey_eq_append (request : EngineRequest) :
    DeterministicEngine.prefixKey request = appendPart [] request.modelRevision ++
      (appendPart [] request.tokenizerRevision ++
        (appendPart [] request.promptHash ++ decimal request.promptTokens)) := by
  unfold DeterministicEngine.prefixKey
  dsimp only
  rw [appendPart_eq_append (appendPart (appendPart _ _) _), appendPart_eq_append (appendPart _ _)]
  simp only [List.append_assoc]

/-- The parts of a request that its prefix key is made of. -/
def prefixParts (request : EngineRequest) : Text × Text × Text × ℕ :=
  (request.modelRevision, request.tokenizerRevision, request.promptHash, request.promptTokens)

theorem prefixParts_eq_of_prefixKey {first second : EngineRequest}
    (same : DeterministicEngine.prefixKey first = DeterministicEngine.prefixKey second) :
    prefixParts first = prefixParts second := by
  rw [prefixKey_eq_append, prefixKey_eq_append] at same
  obtain ⟨models, same⟩ := appendPart_inj same
  obtain ⟨tokenizers, same⟩ := appendPart_inj same
  obtain ⟨prompts, same⟩ := appendPart_inj same
  unfold prefixParts
  rw [models, tokenizers, prompts, decimal_injective same]

/-- A prefix key starts with a digit, a block prefix key with a letter. -/
theorem blockPrefixKey_ne_prefixKey (cacheNamespace : Text) (hashes : List Text)
    (request : EngineRequest) :
    PrefixCache.blockPrefixKey cacheNamespace hashes ≠ DeterministicEngine.prefixKey request := by
  intro same
  rw [PrefixCache.blockPrefixKey_eq, prefixKey_eq_append, appendPart, List.nil_append,
    List.append_assoc, List.append_assoc, List.append_assoc] at same
  cases digits : decimal request.modelRevision.length with
  | nil =>
      rw [digits] at same
      cases same
  | cons letter later =>
      rw [digits] at same
      have letterIs : 'b' = letter := (List.cons.inj same).1
      have isDigit := isDigit_of_mem_decimal (digits ▸ List.mem_cons_self : letter ∈ decimal _)
      rw [← letterIs] at isDigit
      cases isDigit

/-- **Prefix keys are unambiguous.** A block prefix key determines its namespace and its
hashes, a prefix key the revisions, the prompt hash and the number of tokens, and no key is
of both kinds. -/
theorem prefixKeys_distinct :
    (Function.Injective fun parts : Text × List Text =>
      PrefixCache.blockPrefixKey parts.1 parts.2) ∧
    (∀ first second : EngineRequest,
      DeterministicEngine.prefixKey first = DeterministicEngine.prefixKey second →
        prefixParts first = prefixParts second) ∧
    ∀ cacheNamespace hashes request, PrefixCache.blockPrefixKey cacheNamespace hashes ≠
      DeterministicEngine.prefixKey request := by
  refine ⟨fun first second same => ?_, fun _ _ => prefixParts_eq_of_prefixKey,
    blockPrefixKey_ne_prefixKey⟩
  obtain ⟨namespaces, hashes⟩ := PrefixCache.blockPrefixKey_injective same
  exact Prod.ext namespaces hashes

/-- Two hashes, and one hash that looks like both. -/
theorem prefixKeys_distinct_boundary :
    PrefixCache.blockPrefixKey [] [['h'], ['i']] ≠
      PrefixCache.blockPrefixKey [] ["h|1:i".toList] := by
  intro same
  have parts := @prefixKeys_distinct.1 ([], [['h'], ['i']]) ([], ["h|1:i".toList]) same
  cases parts

end InferSched.Engine
